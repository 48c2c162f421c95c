import Mathlib.Algebra.Order.BigOperators.Group.List
import Daisyway.Net.Convergence

/-! # A deployment with a clock

The steps of a deployment at the instants they are taken. Three things take their time: the task of
a connection sleeps for the rekey interval once it has passed on a key, the client waits for two
seconds before it connects again, and the workers of the two deadmen read the clock.

* `kme_load`: how often the daemons use the KMEs and the network. The fetches from the KME for one
  connection are at least the rekey interval apart, and the connections of the client two seconds,
  whatever the peers do.
* `key_lifetime`: how long a key is in use. The workers are threads of their own, and a broker takes
  its time; if every operation of a worker is done at most `latency` seconds after it can be done
  (`InTime`), then on both ends, as long as the worker runs, the last key the broker was given is
  never older than `eraseAfter` and three times the latency. -/

namespace Daisyway.Net.Clocks

open Daisyway.Prim Daisyway.Crypto.Basics Daisyway.Crypto.Protocol Daisyway.Crypto.Lockstep
open Daisyway.Lib.Run Daisyway.Lib.Lists Daisyway.Osk.Deadman
open Daisyway.Net.Manager Daisyway.Net.Server Daisyway.Net.Deployment
open Daisyway.Net.EndToEnd (sampleOsk)

/-! ### The model -/

/-- The waits of the daemons, in seconds. -/
structure Pace where
  rekeyInterval : ℕ
  timings : Timings
  deriving DecidableEq

/-- `Duration::from_secs(2)`, the wait of the client before it connects again. -/
def retryDelay : ℕ := 2

/-- When the sleep that begins is over, if the task has passed on a key. -/
def sleepOf (pace : Pace) (now : ℕ) : TaskAct → List ℕ
  | .sendOsk => [now + pace.rekeyInterval]
  | _ => []

/-- What is known about the worker of a deadman. -/
structure Watch where
  /-- Since when it is where it is. -/
  since : ℕ
  /-- When it called the broker last. -/
  calledAt : ℕ
  deriving DecidableEq

/-- The worker has taken a step. -/
def Watch.after (watch : Watch) (now : ℕ) : WorkerAct → Watch
  | .broker _ _ => ⟨now, now⟩
  | _ => { watch with since := now }

/-- When the worker can go on. -/
def Watch.due (watch : Watch) : WorkerPc → Option ℕ
  | .recv nextErase => some nextErase
  | .returned | .failed | .panicked => none
  | .start | .arm | .set _ _ | .expire | .close => some watch.since

structure Timed where
  now : ℕ
  network : Network
  /-- The sleeps of the tasks of the server, each with its stream and when it is over. -/
  sleeps : List (StreamId × ℕ)
  /-- When the client may connect again. -/
  retryAt : ℕ
  /-- The worker of the server's deadman. -/
  watch : Watch
  /-- The worker of the client's deadman. -/
  clientWatch : Watch
  deriving DecidableEq

namespace Timed

def new (start : ℕ) : Timed := ⟨start, Network.new, [], start, ⟨start, start⟩, ⟨start, start⟩⟩

/-- The step can be taken at the instant `now`. -/
def ready (s : Timed) (now : ℕ) : Network.Act → Bool
  | .server (.task i (.proto .slept)) => s.sleeps.all fun e => e.1 = i → e.2 ≤ now
  | .connect => s.retryAt ≤ now
  | .worker a | .clientWorker a => a.reads now
  | _ => true

variable (cfg : Config) (pace : Pace)

/-- The state after a step that leads to `network`. -/
def after (s : Timed) (now : ℕ) (a : Network.Act) (network : Network) : Timed where
  now
  network
  sleeps := match a with
    | .server (.task i ta) => s.sleeps ++ (sleepOf pace now ta).map (i, ·)
    | _ => s.sleeps
  retryAt :=
    if network.disconnected = true ∧ s.network.disconnected = false then now + retryDelay
    else s.retryAt
  watch := match a with
    | .worker a => s.watch.after now a
    | _ => s.watch
  clientWatch := match a with
    | .clientWorker a => s.clientWatch.after now a
    | _ => s.clientWatch

/-- One step at an instant. -/
def step (s : Timed) (act : ℕ × Network.Act) : Option Timed :=
  if s.now ≤ act.1 ∧ s.ready act.1 act.2 = true then
    (s.network.step cfg pace.timings act.2).map fun network => s.after pace act.1 act.2 network
  else none

variable {cfg pace}

theorem step_some {s s' : Timed} {now : ℕ} {a : Network.Act}
    (h : s.step cfg pace (now, a) = some s') :
    s.now ≤ now ∧ s.ready now a = true ∧
      ∃ network, s.network.step cfg pace.timings a = some network ∧
        s' = s.after pace now a network := by
  unfold step at h
  split_ifs at h with hg
  obtain ⟨network, hn, rfl⟩ := Option.map_eq_some_iff.mp h
  exact ⟨hg.1, hg.2, network, hn, rfl⟩

end Timed

/-! ### The pace of a task -/

/-- The instant, if the task has fetched a key from the KME: the request and the return of its
answer are one event, at the instant of the return. -/
def asked (now : ℕ) : TaskAct → List ℕ
  | .proto (.fetched _ _) => [now]
  | _ => []

/-- When the fetches from the KME have returned, with the stream of the task. -/
def fetchTimes (acts : List (ℕ × Network.Act)) : List (StreamId × ℕ) :=
  acts.flatMap fun
    | (now, .server (.task i ta)) => (asked now ta).map (i, ·)
    | _ => []

theorem fetchTimes_concat (acts : List (ℕ × Network.Act)) (act : ℕ × Network.Act) :
    fetchTimes (acts ++ [act]) = fetchTimes acts ++ fetchTimes [act] :=
  List.flatMap_append

/-- The requests for one task so far, in order: they are apart, and a task that sleeps or asks the
KME does so for a reason. -/
structure TaskPaced (pace : Pace) (sleeps : List (StreamId × ℕ)) (now : ℕ) (i : StreamId)
    (pc : ServerPc) (times : List ℕ) : Prop where
  spaced : times.Pairwise fun a b => a + pace.rekeyInterval ≤ b
  le : ∀ f ∈ times, f ≤ now
  sleeping : pc = .sleep → ∀ f ∈ times, ∃ e ∈ sleeps, e.1 = i ∧ f + pace.rekeyInterval ≤ e.2
  fetching : pc = .fetch → ∀ f ∈ times, f + pace.rekeyInterval ≤ now

section Task
variable {cfg : Config} {pace : Pace} {sleeps sleeps' : List (StreamId × ℕ)} {now now' : ℕ}
  {i : StreamId} {pc : ServerPc} {times : List ℕ}

theorem taskPaced_nil : TaskPaced pace sleeps now i pc [] :=
  ⟨List.Pairwise.nil, by simp, by simp, by simp⟩

/-- Time goes on. -/
theorem TaskPaced.mono (h : TaskPaced pace sleeps now i pc times) (hnow : now ≤ now')
    (hsleeps : ∀ e ∈ sleeps, e ∈ sleeps') : TaskPaced pace sleeps' now' i pc times := by
  refine ⟨h.spaced, fun f hf => (h.le f hf).trans hnow, fun hpc f hf => ?_,
    fun hpc f hf => (h.fetching hpc f hf).trans hnow⟩
  obtain ⟨e, he, hi, hle⟩ := h.sleeping hpc f hf
  exact ⟨e, hsleeps e he, hi, hle⟩

/-- The task is in another place, where it neither sleeps nor asks the KME. -/
theorem TaskPaced.busy (h : TaskPaced pace sleeps now i pc times) {pc' : ServerPc}
    (hsleep : pc' ≠ .sleep) (hfetch : pc' ≠ .fetch) : TaskPaced pace sleeps now i pc' times :=
  ⟨h.spaced, h.le, fun hpc => absurd hpc hsleep, fun hpc => absurd hpc hfetch⟩

/-- The KME has answered. -/
theorem TaskPaced.fetched (h : TaskPaced pace sleeps now i .fetch times) (hnow : now ≤ now')
    {pc' : ServerPc} (hsleep : pc' ≠ .sleep) (hfetch : pc' ≠ .fetch) :
    TaskPaced pace sleeps now' i pc' (times ++ [now']) := by
  refine ⟨?_, fun f hf => ?_, fun hpc => absurd hpc hsleep, fun hpc => absurd hpc hfetch⟩
  · refine List.pairwise_append.mpr ⟨h.spaced, List.pairwise_singleton _ _, fun a ha b hb => ?_⟩
    rw [List.mem_singleton.mp hb]
    exact (h.fetching rfl a ha).trans hnow
  · rcases List.mem_append.mp hf with hf | hf
    · exact (h.le f hf).trans hnow
    · exact (List.mem_singleton.mp hf).le

/-- The sleep begins. -/
theorem TaskPaced.asleep (h : TaskPaced pace sleeps now i pc times) (hnow : now ≤ now') :
    TaskPaced pace (sleeps ++ [(i, now' + pace.rekeyInterval)]) now' i .sleep times := by
  refine ⟨h.spaced, fun f hf => (h.le f hf).trans hnow, fun _ f hf => ?_,
    ServerPc.noConfusion⟩
  refine ⟨_, List.mem_append_right _ (List.mem_singleton.mpr rfl), rfl, ?_⟩
  exact Nat.add_le_add_right ((h.le f hf).trans hnow) _

/-- The sleep is over. -/
theorem TaskPaced.awake (h : TaskPaced pace sleeps now i .sleep times) (hnow : now ≤ now')
    (hready : ∀ e ∈ sleeps, e.1 = i → e.2 ≤ now') :
    TaskPaced pace sleeps now' i .fetch times := by
  refine ⟨h.spaced, fun f hf => (h.le f hf).trans hnow, ServerPc.noConfusion, fun _ f hf => ?_⟩
  obtain ⟨e, he, hi, hle⟩ := h.sleeping rfl f hf
  exact hle.trans (hready e he hi)

/-- **A step of a task keeps its pace.** -/
theorem taskPaced_step {E : Externals} {params : DaisywayProtocolParameters} {closed : Bool}
    {t t' : Task} {ta : TaskAct} {evs : List ConnectionHandlerEvent}
    (h : TaskPaced pace sleeps now i t.proto.pc times)
    (hs : t.step E params closed ta = some (t', evs)) (hnow : now ≤ now')
    (hready : ta = .proto .slept → ∀ e ∈ sleeps, e.1 = i → e.2 ≤ now') :
    TaskPaced pace (sleeps ++ (sleepOf pace now' ta).map (i, ·)) now' i t'.proto.pc
      (times ++ asked now' ta) := by
  cases Task.step_trans hs with
  | @proto a p hphase ha hp =>
    simp only [sleepOf, List.map_nil, List.append_nil]
    cases ServerProtocol.step_trans hp with
    | fetchOk hpc hf | fetchErr hpc hf | fetchPanic hpc hf =>
      rw [hpc] at h
      exact h.fetched hnow (by simp [Task.afterStep]) (by simp [Task.afterStep])
    | slept hpc =>
      rw [hpc] at h
      simp only [asked, List.append_nil]
      exact h.awake hnow (hready rfl)
    | oskOk hpc | oskErr hpc => cases ha
    | wroteSome | wroteAll | writeErr | readOk | readBad | readErr =>
      simp only [asked, List.append_nil]
      exact (h.mono hnow fun e he => he).busy (by simp [Task.afterStep, ServerProtocol.complete])
        (by simp [Task.afterStep, ServerProtocol.complete])
  | @sendOsk key p hphase hpc hp =>
    simp only [asked, List.append_nil]
    generalize (!closed) = ok at hp
    cases ServerProtocol.step_trans hp with
    | oskOk hpc => exact h.asleep hnow
    | oskErr hpc =>
      exact (h.mono hnow fun e he => List.mem_append_left _ he).busy (by simp [Task.afterStep])
        (by simp [Task.afterStep])
  | sendExit | cancel =>
    simp only [sleepOf, asked, List.map_nil, List.append_nil]
    exact h.mono hnow fun e he => he

end Task

/-! ### The pace of the daemons -/

/-- When the client has connected. -/
def connectTimes (acts : List (ℕ × Network.Act)) : List ℕ :=
  acts.flatMap fun
    | (now, .connect) => [now]
    | _ => []

theorem connectTimes_concat (acts : List (ℕ × Network.Act)) (act : ℕ × Network.Act) :
    connectTimes (acts ++ [act]) = connectTimes acts ++ connectTimes [act] :=
  List.flatMap_append

/-- Every task keeps its pace, and the KME was asked for tasks only. -/
structure TasksPaced (pace : Pace) (acts : List (ℕ × Network.Act)) (s : Timed) : Prop where
  lt : ∀ e ∈ fetchTimes acts, e.1 < s.network.server.tasks.length
  task : ∀ (i : ℕ) (u : Task), s.network.server.tasks[i]? = some u →
    TaskPaced pace s.sleeps s.now i u.proto.pc (valuesOf i (fetchTimes acts))

/-- The connections of the client are apart, and the next one will be. -/
structure ClientPaced (start : ℕ) (acts : List (ℕ × Network.Act)) (s : Timed) : Prop where
  mem : ∀ c ∈ connectTimes acts, start ≤ c ∧ c ≤ s.now
  spaced : (connectTimes acts).Pairwise fun a b => a + retryDelay ≤ b
  retry : s.network.disconnected = true → ∀ c ∈ connectTimes acts, c + retryDelay ≤ s.retryAt

structure Paced (pace : Pace) (start : ℕ) (acts : List (ℕ × Network.Act)) (s : Timed) :
    Prop where
  start_le : start ≤ s.now
  fetch_ge : ∀ e ∈ fetchTimes acts, start ≤ e.2
  tasks : TasksPaced pace acts s
  client : ClientPaced start acts s

section Runs
variable {cfg : Config} {pace : Pace} {start now : ℕ} {acts : List (ℕ × Network.Act)}
  {s s' : Timed} {a : Network.Act}

theorem paced_new : Paced pace start [] (Timed.new start) := by
  refine ⟨le_rfl, by simp [fetchTimes], ⟨by simp [fetchTimes], fun i u hu => ?_⟩,
    ⟨by simp [connectTimes], List.Pairwise.nil, by simp [connectTimes]⟩⟩
  simp [Timed.new, Network.new, TcpServer.new] at hu

theorem mem_fetchTimes {e : StreamId × ℕ} (he : e ∈ fetchTimes [(now, a)]) :
    (∃ ta, a = .server (.task e.1 ta)) ∧ e.2 = now := by
  simp only [fetchTimes, List.flatMap_cons, List.flatMap_nil, List.append_nil] at he
  split at he
  · next n i ta heq =>
    obtain ⟨rfl, rfl⟩ := Prod.mk.inj heq
    obtain ⟨f, hf, rfl⟩ := List.mem_map.mp he
    refine ⟨⟨ta, rfl⟩, ?_⟩
    unfold asked at hf
    split at hf
    · exact List.mem_singleton.mp hf
    · cases hf
  · cases he

/-- A step that is none of a task leaves the protocols of the tasks as they are; there may be a new
task. -/
theorem protos_of_others {w w' : Network} {t : Timings} (hs : w.step cfg t a = some w')
    (ha : ∀ i ta, a ≠ .server (.task i ta)) :
    w.server.tasks.length ≤ w'.server.tasks.length ∧
      ∀ (i : ℕ) (u' : Task), w'.server.tasks[i]? = some u' →
        (∃ u, w.server.tasks[i]? = some u ∧ u'.proto = u.proto) ∨
          (i = w.server.tasks.length ∧ u'.proto = ServerProtocol.new) := by
  have hstep := Network.server_step hs
  cases a with
  | server b =>
    rw [Network.serverActs, run_singleton] at hstep
    refine ⟨TcpServer.step_tasks_length hstep, fun i u' hu' => ?_⟩
    rcases TcpServer.step_protos hstep hu' with hold | ⟨-, hi, hnew⟩ | ⟨ta, _, _, rfl, -⟩
    · exact Or.inl hold
    · exact Or.inr ⟨hi, hnew⟩
    · exact absurd rfl (ha i ta)
  | connect | intrude | lose | client | cutRequests | cutAcks | worker | clientWorker =>
    rw [← Option.some.inj hstep]
    exact ⟨le_rfl, fun i u' hu' => Or.inl ⟨u', hu', rfl⟩⟩

/-- The tasks after a step of another party. -/
theorem tasks_step_of_others (h : TasksPaced pace acts s)
    (hs : s.step cfg pace (now, a) = some s') (ha : ∀ i ta, a ≠ .server (.task i ta)) :
    TasksPaced pace (acts ++ [(now, a)]) s' := by
  obtain ⟨hnow, -, network, hn, rfl⟩ := Timed.step_some hs
  obtain ⟨hlen, hprotos⟩ := protos_of_others hn ha
  have hnone : fetchTimes [(now, a)] = [] := by
    refine List.eq_nil_iff_forall_not_mem.mpr fun e he => ?_
    obtain ⟨⟨ta, hta⟩, -⟩ := mem_fetchTimes he
    exact ha _ _ hta
  have hsleeps : (s.after pace now a network).sleeps = s.sleeps := by
    unfold Timed.after
    split
    · next i ta => exact absurd rfl (ha i ta)
    · rfl
  have hsame : fetchTimes (acts ++ [(now, a)]) = fetchTimes acts := by
    rw [fetchTimes_concat, hnone, List.append_nil]
  refine ⟨fun e he => (h.lt e (hsame ▸ he)).trans_le hlen, fun i u hu => ?_⟩
  rw [hsleeps, hsame]
  rcases hprotos i u hu with ⟨u0, hu0, hproto⟩ | ⟨rfl, -⟩
  · rw [hproto]
    exact (h.task i u0 hu0).mono hnow fun e he => he
  · -- the KME was not asked for the new task
    rw [valuesOf_eq_nil fun e he => (h.lt e he).ne]
    exact taskPaced_nil

/-- The tasks after a step of one of them. -/
theorem tasks_step_of_task {j : StreamId} {ta : TaskAct} (h : TasksPaced pace acts s)
    (hs : s.step cfg pace (now, .server (.task j ta)) = some s') :
    TasksPaced pace (acts ++ [(now, .server (.task j ta))]) s' := by
  obtain ⟨hnow, hready, network, hn, rfl⟩ := Timed.step_some hs
  have hstep := Network.server_step hn
  rw [Network.serverActs, run_singleton] at hstep
  have hnew : fetchTimes [(now, .server (.task j ta))] = (asked now ta).map (j, ·) := by
    simp [fetchTimes]
  have hsleeps : (s.after pace now (.server (.task j ta)) network).sleeps =
      s.sleeps ++ (sleepOf pace now ta).map (j, ·) := rfl
  have hnetwork : (s.after pace now (.server (.task j ta)) network).network = network := rfl
  generalize hserver : network.server = server at hstep
  cases TcpServer.step_trans hstep with
  | @task _ _ t t' evs ht htask =>
    have hj : j < s.network.server.tasks.length := (List.getElem?_eq_some_iff.mp ht).1
    refine ⟨fun e he => ?_, fun i u hu => ?_⟩
    · rw [fetchTimes_concat, hnew] at he
      rw [hnetwork, hserver, List.length_set]
      rcases List.mem_append.mp he with he | he
      · exact h.lt e he
      · obtain ⟨f, -, rfl⟩ := List.mem_map.mp he
        exact hj
    · rw [hnetwork, hserver] at hu
      rw [fetchTimes_concat, hnew, hsleeps, valuesOf_append]
      rcases getElem?_set_cases hu with ⟨rfl, rfl⟩ | ⟨hne, hu⟩
      · rw [valuesOf_map_same]
        refine taskPaced_step (h.task i t ht) htask hnow ?_
        rintro rfl e he hi
        have hall := List.all_eq_true.mp hready e he
        exact of_decide_eq_true hall hi
      · have hnone : valuesOf i ((asked now ta).map (j, ·)) = [] := by
          refine valuesOf_eq_nil fun e he => ?_
          obtain ⟨f, -, rfl⟩ := List.mem_map.mp he
          exact Ne.symm hne
        rw [hnone, List.append_nil]
        exact (h.task i u hu).mono hnow fun e he => List.mem_append_left _ he

/-- The connections of the client after a step. -/
theorem client_step (hstart : start ≤ s.now) (h : ClientPaced start acts s)
    (hs : s.step cfg pace (now, a) = some s') : ClientPaced start (acts ++ [(now, a)]) s' := by
  obtain ⟨hnow, hready, network, hn, rfl⟩ := Timed.step_some hs
  have hnetwork : (s.after pace now a network).network = network := rfl
  have hmem : ∀ c ∈ connectTimes acts, start ≤ c ∧ c ≤ now := fun c hc =>
    ⟨(h.mem c hc).1, (h.mem c hc).2.trans hnow⟩
  by_cases ha : a = .connect
  · subst ha
    have hnew : connectTimes (acts ++ [(now, .connect)]) = connectTimes acts ++ [now] :=
      connectTimes_concat acts _
    cases Network.step_trans hn with
    | connect hd =>
      have hretry : s.retryAt ≤ now := of_decide_eq_true hready
      refine ⟨fun c hc => ?_, ?_, fun hdisc => ?_⟩
      · rw [hnew] at hc
        rcases List.mem_append.mp hc with hc | hc
        · exact hmem c hc
        · rw [List.mem_singleton.mp hc]
          exact ⟨hstart.trans hnow, le_rfl⟩
      · rw [hnew]
        refine List.pairwise_append.mpr ⟨h.spaced, List.pairwise_singleton _ _, ?_⟩
        intro c hc b hb
        rw [List.mem_singleton.mp hb]
        exact (h.retry hd c hc).trans hretry
      · -- the client has just connected
        simp [Timed.after, Network.disconnected, Conn.new, ClientProtocol.new] at hdisc
  · have hnone : connectTimes [(now, a)] = [] := by
      cases a with
      | connect => exact absurd rfl ha
      | intrude | lose | client | cutRequests | cutAcks | server | worker | clientWorker => rfl
    have hsame : connectTimes (acts ++ [(now, a)]) = connectTimes acts := by
      rw [connectTimes_concat, hnone, List.append_nil]
    refine ⟨fun c hc => hmem c (hsame ▸ hc), hsame.symm ▸ h.spaced, fun hdisc c hc => ?_⟩
    rw [hsame] at hc
    rw [hnetwork] at hdisc
    unfold Timed.after
    dsimp only
    split_ifs with hlost
    · exact Nat.add_le_add_right (hmem c hc).2 _
    · refine h.retry ?_ c hc
      simpa [hdisc] using hlost

theorem step_paced (h : Paced pace start acts s) (hs : s.step cfg pace (now, a) = some s') :
    Paced pace start (acts ++ [(now, a)]) s' := by
  obtain ⟨hnow, -, network, -, hs'⟩ := Timed.step_some hs
  have hstart : start ≤ now := h.start_le.trans hnow
  refine ⟨by rw [hs']; exact hstart, fun e he => ?_, ?_, client_step h.start_le h.client hs⟩
  · rw [fetchTimes_concat] at he
    rcases List.mem_append.mp he with he | he
    · exact h.fetch_ge e he
    · rw [(mem_fetchTimes he).2]
      exact hstart
  · by_cases ha : ∃ j ta, a = .server (.task j ta)
    · obtain ⟨j, ta, rfl⟩ := ha
      exact tasks_step_of_task h.tasks hs
    · exact tasks_step_of_others h.tasks hs fun j ta he => ha ⟨j, ta, he⟩

theorem run_paced (hrun : run (Timed.step cfg pace) (Timed.new start) acts = some s) :
    Paced pace start acts s :=
  run_invariant_history (I := Paced pace start) paced_new step_paced hrun

theorem Paced.task (h : Paced pace start acts s) (i : StreamId) :
    (valuesOf i (fetchTimes acts)).Pairwise (fun a b => a + pace.rekeyInterval ≤ b) ∧
      ∀ f ∈ valuesOf i (fetchTimes acts), start ≤ f ∧ f ≤ s.now := by
  by_cases hi : i < s.network.server.tasks.length
  · have hpaced := h.tasks.task i _ (List.getElem?_eq_getElem hi)
    refine ⟨hpaced.spaced, fun f hf => ⟨?_, hpaced.le f hf⟩⟩
    obtain ⟨e, he, rfl⟩ := List.mem_map.mp hf
    exact h.fetch_ge e (List.mem_of_mem_filter he)
  · have hnone : valuesOf i (fetchTimes acts) = [] :=
      valuesOf_eq_nil fun e he hei => hi (hei ▸ h.tasks.lt e he)
    rw [hnone]
    exact ⟨List.Pairwise.nil, fun f hf => by cases hf⟩

/-- **How often the KME is asked.** In every run of a deployment, whatever the peers do: the
requests to the KME for one connection are at least the rekey interval apart, so there are at most
as many as whole intervals have passed, and one; the connections of the client are at least two
seconds apart. -/
theorem kme_load (hrun : run (Timed.step cfg pace) (Timed.new start) acts = some s)
    (hpos : 0 < pace.rekeyInterval) :
    (∀ i, (valuesOf i (fetchTimes acts)).Pairwise (fun a b => a + pace.rekeyInterval ≤ b) ∧
      (valuesOf i (fetchTimes acts)).length ≤ (s.now - start) / pace.rekeyInterval + 1) ∧
    (fetchTimes acts).length ≤
      s.network.server.tasks.length * ((s.now - start) / pace.rekeyInterval + 1) ∧
    (connectTimes acts).Pairwise (fun a b => a + retryDelay ≤ b) ∧
    (connectTimes acts).length ≤ (s.now - start) / retryDelay + 1 := by
  have h := run_paced hrun
  have htask : ∀ i, (valuesOf i (fetchTimes acts)).length ≤
      (s.now - start) / pace.rekeyInterval + 1 := fun i =>
    length_le_of_spaced hpos (h.task i).1 (h.task i).2
  refine ⟨fun i => ⟨(h.task i).1, htask i⟩, ?_, h.client.spaced,
    length_le_of_spaced (by decide) h.client.spaced h.client.mem⟩
  have hall := (perm_flatMap_valuesOf h.tasks.lt).length_eq
  rw [List.length_map, List.length_flatMap] at hall
  rw [← hall]
  refine (List.sum_le_card_nsmul _ ((s.now - start) / pace.rekeyInterval + 1)
    fun n hn => ?_).trans_eq ?_
  · obtain ⟨i, -, rfl⟩ := List.mem_map.mp hn
    exact htask i
  · rw [List.length_map, List.length_range, smul_eq_mul]

end Runs

/-! ### The lifetime of a key -/

/-- The operation of the worker is done at most `latency` after it can be done. -/
def Watch.InTime (latency : ℕ) (watch : Watch) (now : ℕ) (pc : WorkerPc) : Prop :=
  ∀ due ∈ watch.due pc, now ≤ due + latency

instance (latency : ℕ) (watch : Watch) (now : ℕ) (pc : WorkerPc) :
    Decidable (watch.InTime latency now pc) :=
  inferInstanceAs (Decidable (∀ due ∈ watch.due pc, now ≤ due + latency))

/-- Neither worker is late when the step is taken. -/
def Timed.InTime (latency : ℕ) (s : Timed) (act : ℕ × Network.Act) : Prop :=
  s.watch.InTime latency act.1 s.network.deadman.worker.pc ∧
    s.clientWatch.InTime latency act.1 s.network.clientDeadman.worker.pc

instance (latency : ℕ) (s : Timed) (act : ℕ × Network.Act) : Decidable (s.InTime latency act) :=
  inferInstanceAs (Decidable (_ ∧ _))

/-- How long ago the last call of the worker can be, where it is. -/
def Watch.Recent (watch : Watch) (eraseAfter latency : ℕ) (w : DeadmanWorker) : Prop :=
  match w.pc with
  | .start => w.calls = []
  | .arm => watch.since = watch.calledAt
  | .recv nextErase => nextErase ≤ watch.calledAt + latency + eraseAfter
  | .set _ _ | .expire | .close => watch.since ≤ watch.calledAt + 2 * latency + eraseAfter
  | .returned | .failed | .panicked => True

structure OnTime (eraseAfter latency now : ℕ) (watch : Watch) (w : DeadmanWorker) : Prop where
  inTime : watch.InTime latency now w.pc
  recent : watch.Recent eraseAfter latency w

section Worker
variable {t : Timing} {latency now now' : ℕ} {watch : Watch} {w w' : DeadmanWorker} {a : WorkerAct}

/-- The worker can go on at once. -/
theorem inTime_of_since {pc : WorkerPc} (hdue : watch.due pc = some watch.since)
    (hsince : watch.since = now) : watch.InTime latency now pc := by
  intro due hd
  rw [hdue, hsince] at hd
  obtain rfl := Option.mem_some.mp hd
  exact Nat.le_add_right _ _

theorem inTime_of_stopped {pc : WorkerPc} (hpc : pc.stopped = true) :
    watch.InTime latency now pc := by
  have hnone : watch.due pc = none := by
    cases pc with
    | returned | failed | panicked => rfl
    | start | arm | recv | set | expire | close => cases hpc
  intro due hd
  rw [hnone] at hd
  cases hd

theorem onTime_new : OnTime t.eraseAfter latency now ⟨now, now⟩ DeadmanWorker.new :=
  ⟨inTime_of_since rfl rfl, rfl⟩

/-- The worker leaves its wait at the deadline or before, and calls the broker next. -/
theorem OnTime.leave (h : OnTime t.eraseAfter latency now watch w) {n : ℕ} (hpc : w.pc = .recv n)
    (hin : watch.InTime latency now' w.pc) {pc : WorkerPc}
    (hnext : pc = .expire ∨ pc = .close ∨ ∃ key reason, pc = .set key reason) :
    OnTime t.eraseAfter latency now' { watch with since := now' } { w with pc } := by
  have hrecent : n ≤ watch.calledAt + latency + t.eraseAfter := by
    have hrecent := h.recent
    unfold Watch.Recent at hrecent
    rwa [hpc] at hrecent
  have hle : now' ≤ n + latency := hin n (by rw [hpc]; rfl)
  have hsince : now' ≤ watch.calledAt + 2 * latency + t.eraseAfter := by omega
  rcases hnext with rfl | rfl | ⟨key, reason, rfl⟩
  · exact ⟨inTime_of_since rfl rfl, hsince⟩
  · exact ⟨inTime_of_since rfl rfl, hsince⟩
  · exact ⟨inTime_of_since rfl rfl, hsince⟩

theorem afterCall_arm_or_stopped (pc : WorkerPc) (res : BrokerResult) :
    pc.afterCall res = .arm ∨ (pc.afterCall res).stopped = true := by
  cases res with
  | ok =>
    unfold WorkerPc.afterCall
    split_ifs
    · exact Or.inr rfl
    · exact Or.inl rfl
  | err | panicked => exact Or.inr rfl

/-- **A step of the worker is in time.** -/
theorem onTime_step (h : OnTime t.eraseAfter latency now watch w)
    (hin : watch.InTime latency now' w.pc) (hs : w.step t a = some w')
    (hreads : a.reads now' = true) :
    OnTime t.eraseAfter latency now' (watch.after now' a) w' := by
  rcases step_cases hs with ⟨n, rfl, hpc, -, rfl⟩ | ⟨n, rfl, hpc, -, rfl⟩ |
    ⟨n, key, reason, rfl, hpc, rfl⟩ | ⟨n, rfl, hpc, rfl⟩ | ⟨n, m, rfl, hpc, -, rfl⟩ |
    ⟨random, res, call, rfl, hcall, rfl⟩
  · -- the deadline is counted from now, which is at most the latency after the last call
    obtain rfl : n = now' := of_decide_eq_true hreads
    have hrecent : watch.since = watch.calledAt := by
      have hrecent := h.recent
      unfold Watch.Recent at hrecent
      rwa [hpc] at hrecent
    have hle : n ≤ watch.since + latency := hin watch.since (by rw [hpc]; rfl)
    refine ⟨fun due hd => ?_, ?_⟩
    · obtain rfl := Option.mem_some.mp hd
      omega
    · show n + t.eraseAfter ≤ watch.calledAt + latency + t.eraseAfter
      omega
  · exact ⟨inTime_of_stopped rfl, trivial⟩
  · exact h.leave hpc hin (Or.inr (Or.inr ⟨key, reason, rfl⟩))
  · exact h.leave hpc hin (Or.inr (Or.inl rfl))
  · exact h.leave hpc hin (Or.inl rfl)
  · rcases afterCall_arm_or_stopped w.pc res with hnext | hnext
    · rw [hnext]
      exact ⟨inTime_of_since rfl rfl, rfl⟩
    · refine ⟨inTime_of_stopped hnext, ?_⟩
      unfold Watch.Recent
      generalize w.pc.afterCall res = pc at hnext
      cases pc with
      | returned | failed | panicked => trivial
      | start | arm | recv | set | expire | close => cases hnext

/-- **The last call is not old.** -/
theorem OnTime.age_le (h : OnTime t.eraseAfter latency now watch w) (hrun : w.pc.stopped = false)
    (hcalls : w.calls ≠ []) : now ≤ watch.calledAt + t.eraseAfter + 3 * latency := by
  have hrecent := h.recent
  have hin := h.inTime
  unfold Watch.Recent at hrecent
  cases hpc : w.pc with
  | start =>
    rw [hpc] at hrecent
    exact absurd hrecent hcalls
  | arm | set | expire | close =>
    rw [hpc] at hrecent hin
    have hle : now ≤ watch.since + latency := hin watch.since rfl
    dsimp only at hrecent
    omega
  | recv n =>
    rw [hpc] at hrecent hin
    have hle : now ≤ n + latency := hin n rfl
    dsimp only at hrecent
    omega
  | returned | failed | panicked =>
    rw [hpc] at hrun
    cases hrun

end Worker

section Runs
variable {cfg : Config} {pace : Pace} {start latency now : ℕ} {acts : List (ℕ × Network.Act)}
  {s s' : Timed} {a : Network.Act}

/-- Both workers are in time. -/
structure BothOnTime (pace : Pace) (latency : ℕ) (s : Timed) : Prop where
  server : OnTime pace.timings.server.eraseAfter latency s.now s.watch s.network.deadman.worker
  client : OnTime pace.timings.client.eraseAfter latency s.now s.clientWatch
    s.network.clientDeadman.worker

theorem watch_of_others {network : Network} (ha : ∀ b, a ≠ .worker b) :
    (s.after pace now a network).watch = s.watch := by
  cases a with
  | worker b => exact absurd rfl (ha b)
  | connect | intrude | lose | client | cutRequests | cutAcks | server | clientWorker => rfl

theorem clientWatch_of_others {network : Network} (ha : ∀ b, a ≠ .clientWorker b) :
    (s.after pace now a network).clientWatch = s.clientWatch := by
  cases a with
  | clientWorker b => exact absurd rfl (ha b)
  | connect | intrude | lose | client | cutRequests | cutAcks | server | worker => rfl

/-- **A step of the deployment is in time.** -/
theorem step_onTime (h : BothOnTime pace latency s) {act : ℕ × Network.Act}
    (hin : s.InTime latency act) (hs : s.step cfg pace act = some s') :
    BothOnTime pace latency s' := by
  obtain ⟨now, a⟩ := act
  obtain ⟨-, hready, network, hn, rfl⟩ := Timed.step_some hs
  constructor
  · by_cases ha : ∃ b, a = .worker b
    · obtain ⟨b, rfl⟩ := ha
      cases Network.step_trans hn with
      | worker hd => exact onTime_step h.server hin.1 (workerStep_cases hd).1 hready
    · have hwatch : (s.after pace now a network).watch = s.watch :=
        watch_of_others fun b he => ha ⟨b, he⟩
      have hworker : (s.after pace now a network).network.deadman.worker =
          s.network.deadman.worker := worker_of_others hn fun b he => ha ⟨b, he⟩
      rw [hwatch, hworker]
      exact ⟨hin.1, h.server.recent⟩
  · by_cases ha : ∃ b, a = .clientWorker b
    · obtain ⟨b, rfl⟩ := ha
      cases Network.step_trans hn with
      | clientWorker hd => exact onTime_step h.client hin.2 (workerStep_cases hd).1 hready
    · have hwatch : (s.after pace now a network).clientWatch = s.clientWatch :=
        clientWatch_of_others fun b he => ha ⟨b, he⟩
      have hworker : (s.after pace now a network).network.clientDeadman.worker =
          s.network.clientDeadman.worker := clientWorker_of_others hn fun b he => ha ⟨b, he⟩
      rw [hwatch, hworker]
      exact ⟨hin.2, h.client.recent⟩

/-- **How long a key is in use.** In every run of a deployment in which no operation of a worker is
done later than `latency` after it can be done, on both ends, as long as the worker runs: the last
call of the broker is not longer ago than `eraseAfter` and three times the latency. So no fresh key
stays in place for longer, whatever happens to the connections. -/
theorem key_lifetime (hrun : run (Timed.step cfg pace) (Timed.new start) acts = some s)
    (hin : Along (Timed.step cfg pace) (Timed.InTime latency) (Timed.new start) acts) :
    (s.network.deadman.worker.pc.stopped = false → s.network.deadman.worker.calls ≠ [] →
      s.now ≤ s.watch.calledAt + pace.timings.server.eraseAfter + 3 * latency) ∧
    (s.network.clientDeadman.worker.pc.stopped = false →
      s.network.clientDeadman.worker.calls ≠ [] →
      s.now ≤ s.clientWatch.calledAt + pace.timings.client.eraseAfter + 3 * latency) := by
  have h : BothOnTime pace latency s :=
    run_invariant_along (fun h => step_onTime h) ⟨onTime_new, onTime_new⟩ hin hrun
  exact ⟨h.server.age_le, h.client.age_le⟩

end Runs

/-! ### A sample run -/

/-- The server rekeys every two minutes. -/
def samplePace : Pace := ⟨120, sampleTimings⟩

/-- A key is negotiated and passed to the brokers of both ends; two minutes later the task of the
server asks its KME for the next one. -/
def sampleTimed : List (ℕ × Network.Act) :=
  let first : List Network.Act :=
    [.worker (.broker (zeroed 32) .ok), .worker (.arm 0),
      .clientWorker (.broker (zeroed 32) .ok), .clientWorker (.arm 0), .connect,
      .server .accept] ++ sampleRound 0 ++
      [.server .recv, .server .oskSent, .client (.oskSet true),
        .worker (.received (.setOsk sampleOsk .fresh)), .worker (.broker (zeroed 32) .ok),
        .worker (.arm 0), .clientWorker (.received (.setOsk sampleOsk .fresh)),
        .clientWorker (.broker (zeroed 32) .ok), .clientWorker (.arm 0)]
  first.map (0, ·) ++ [(120, .server (.task 0 (.proto .slept))),
    (121, .server (.task 0 (.proto (.fetched (sampleAnswer (sampleKey 1)) (zeroed 32)))))]

/-- The sample run at its end. -/
theorem sampleTimed_run :
    (run (Timed.step (sampleConfig (sampleKey 1) (sampleKey 1)) samplePace) (Timed.new 0)
      sampleTimed).any (fun s => decide (s.now = 121 ∧ s.watch.calledAt = 0 ∧
        s.network.deadman.worker.calls.getLast? = some (setFreshOsk sampleOsk) ∧
        s.network.deadman.worker.pc.stopped = false)) = true := by
  decide +kernel

theorem kme_load_sample :
    ∃ s, run (Timed.step (sampleConfig (sampleKey 1) (sampleKey 1)) samplePace) (Timed.new 0)
        sampleTimed = some s ∧
      fetchTimes sampleTimed = [(0, 0), (0, 121)] ∧
      (valuesOf 0 (fetchTimes sampleTimed)).Pairwise (fun a b => a + 120 ≤ b) := by
  obtain ⟨s, hs, -⟩ := (Option.any_eq_true _ _).mp sampleTimed_run
  exact ⟨s, hs, by decide +kernel, ((kme_load hs (by decide)).1 0).1⟩

theorem key_lifetime_sample :
    ∃ s, run (Timed.step (sampleConfig (sampleKey 1) (sampleKey 1)) samplePace) (Timed.new 0)
        sampleTimed = some s ∧
      s.now = 121 ∧ s.watch.calledAt = 0 ∧
      s.network.deadman.worker.calls.getLast? = some (setFreshOsk sampleOsk) ∧
      s.now ≤ s.watch.calledAt + 150 + 3 * 1 := by
  have hin : Along (Timed.step (sampleConfig (sampleKey 1) (sampleKey 1)) samplePace)
      (Timed.InTime 1) (Timed.new 0) sampleTimed := by
    decide +kernel
  obtain ⟨s, hs, he⟩ := (Option.any_eq_true _ _).mp sampleTimed_run
  obtain ⟨hnow, hcalled, hlast, hworker⟩ := of_decide_eq_true he
  refine ⟨s, hs, hnow, hcalled, hlast, (key_lifetime hs hin).1 hworker fun hnil => ?_⟩
  rw [hnil] at hlast
  cases hlast

end Daisyway.Net.Clocks
