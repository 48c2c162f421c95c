import Daisyway.Net.Deployment

/-! # Brokers in operations

`Network` makes a call of a broker in one step. A handler of output keys (`Handler`) makes it in
operations of its own, on what it writes the keys to, and says when the call has ended and how; on
the two ends it can be different ones. Everything else is as in `Network`.

Every run with handlers is a run of the deployment (`run_network`). An invariant of a worker and its
handler (`Keeps`) holds on an end in every run, whatever the rest of the deployment does
(`run_ends`). -/

namespace Daisyway.Net.Brokers

open Daisyway.Crypto.Lockstep Daisyway.Lib.Run Daisyway.Osk.Deadman Daisyway.Net.Deployment

/-- A handler of output keys: an operation, where the worker is at a place, leads to a state and, if
the call has ended with it, to a step of the worker. -/
abbrev Handler (β α : Type) : Type := WorkerPc → β → α → Option (β × Option WorkerAct)

/-- A deployment with what the two handlers write to. -/
structure Hosts (β γ : Type) where
  network : Network
  server : β
  client : γ

namespace Hosts

variable {β γ α δ : Type}

def new (server : β) (client : γ) : Hosts β γ := ⟨Network.new, server, client⟩

inductive Act (α δ : Type) where
  | network (a : Network.Act)
  /-- An operation of the handler of the server. -/
  | server (a : α)
  /-- An operation of the handler of the client. -/
  | client (a : δ)

/-- The action is a call of a broker, which is made by operations of a handler here. -/
def callsBroker : Network.Act → Bool
  | .worker (.broker _ _) | .clientWorker (.broker _ _) => true
  | _ => false

variable (cfg : Config) (t : Timings) (serverHandler : Handler β α) (clientHandler : Handler γ δ)

/-- One step of the deployment with its handlers. -/
def step (s : Hosts β γ) : Act α δ → Option (Hosts β γ)
  | .network a =>
    if callsBroker a then none
    else (s.network.step cfg t a).map fun network => { s with network }
  | .server a =>
    (serverHandler s.network.deadman.worker.pc s.server a).bind fun r =>
      match r.2 with
      | none => some { s with server := r.1 }
      | some ended =>
        (s.network.step cfg t (.worker ended)).map fun network => { s with network, server := r.1 }
  | .client a =>
    (clientHandler s.network.clientDeadman.worker.pc s.client a).bind fun r =>
      match r.2 with
      | none => some { s with client := r.1 }
      | some ended =>
        (s.network.step cfg t (.clientWorker ended)).map fun network =>
          { s with network, client := r.1 }

/-- What a step can do. -/
inductive Trans (s : Hosts β γ) : Act α δ → Hosts β γ → Prop
  | network {a : Network.Act} {network : Network} (hb : callsBroker a = false)
      (hn : s.network.step cfg t a = some network) : Trans s (.network a) { s with network }
  | server {a : α} {server : β}
      (hs : serverHandler s.network.deadman.worker.pc s.server a = some (server, none)) :
      Trans s (.server a) { s with server }
  | serverEnds {a : α} {server : β} {ended : WorkerAct} {network : Network}
      (hs : serverHandler s.network.deadman.worker.pc s.server a = some (server, some ended))
      (hn : s.network.step cfg t (.worker ended) = some network) :
      Trans s (.server a) { s with network, server }
  | client {a : δ} {client : γ}
      (hs : clientHandler s.network.clientDeadman.worker.pc s.client a = some (client, none)) :
      Trans s (.client a) { s with client }
  | clientEnds {a : δ} {client : γ} {ended : WorkerAct} {network : Network}
      (hs : clientHandler s.network.clientDeadman.worker.pc s.client a =
        some (client, some ended))
      (hn : s.network.step cfg t (.clientWorker ended) = some network) :
      Trans s (.client a) { s with network, client }

variable {cfg t serverHandler clientHandler}

theorem step_trans {s s' : Hosts β γ} {a : Act α δ}
    (hs : s.step cfg t serverHandler clientHandler a = some s') :
    Trans cfg t serverHandler clientHandler s a s' := by
  cases a with
  | network a =>
    simp only [step] at hs
    split_ifs at hs with hb
    obtain ⟨network, hn, rfl⟩ := Option.map_eq_some_iff.mp hs
    exact .network (Bool.eq_false_iff.mpr hb) hn
  | server a =>
    obtain ⟨⟨server, ended⟩, hstep, hs⟩ := Option.bind_eq_some_iff.mp hs
    cases ended with
    | none =>
      obtain rfl := Option.some.inj hs
      exact .server hstep
    | some ended =>
      obtain ⟨network, hn, rfl⟩ := Option.map_eq_some_iff.mp hs
      exact .serverEnds hstep hn
  | client a =>
    obtain ⟨⟨client, ended⟩, hstep, hs⟩ := Option.bind_eq_some_iff.mp hs
    cases ended with
    | none =>
      obtain rfl := Option.some.inj hs
      exact .client hstep
    | some ended =>
      obtain ⟨network, hn, rfl⟩ := Option.map_eq_some_iff.mp hs
      exact .clientEnds hstep hn

end Hosts

/-! ### The two levels -/

section Runs
variable {β γ α δ : Type} {cfg : Config} {t : Timings} {serverHandler : Handler β α}
  {clientHandler : Handler γ δ} {s s' : Hosts β γ} {acts : List (Hosts.Act α δ)} {server : β}
  {client : γ}

/-- A step is none or one step of the deployment. -/
theorem step_network {a : Hosts.Act α δ}
    (hs : s.step cfg t serverHandler clientHandler a = some s') :
    ∃ acts, run (Network.step cfg t) s.network acts = some s'.network := by
  cases Hosts.step_trans hs with
  | @network a _ hb hn => exact ⟨[a], (run_singleton _ _).trans hn⟩
  | server | client => exact ⟨[], rfl⟩
  | @serverEnds _ _ ended _ _ hn => exact ⟨[.worker ended], (run_singleton _ _).trans hn⟩
  | @clientEnds _ _ ended _ _ hn => exact ⟨[.clientWorker ended], (run_singleton _ _).trans hn⟩

/-- **Every run with handlers is a run of the deployment.** -/
theorem run_network
    (hrun : run (Hosts.step cfg t serverHandler clientHandler) (.new server client) acts = some s) :
    ∃ acts, run (Network.step cfg t) Network.new acts = some s.network := by
  refine run_invariant (I := fun s => ∃ acts, run (Network.step cfg t) Network.new acts =
    some s.network) ?_ ⟨[], rfl⟩ hrun
  rintro s a s' ⟨acts, hacts⟩ hs
  obtain ⟨more, hmore⟩ := step_network hs
  exact ⟨acts ++ more, run_append_some.mpr ⟨s.network, hacts, hmore⟩⟩

/-- A statement about a worker and its handler that both keep. -/
structure Keeps (t : Timing) (handler : Handler β α) (I : DeadmanWorker → β → Prop) : Prop where
  /-- A step of the worker between two calls. -/
  worker : ∀ {w w' : DeadmanWorker} {b : β} {a : WorkerAct}, I w b →
    (∀ random res, a ≠ .broker random res) → w.step t a = some w' → I w' b
  /-- An operation after which the call goes on. -/
  operation : ∀ {w : DeadmanWorker} {b b' : β} {a : α}, I w b →
    handler w.pc b a = some (b', none) → I w b'
  /-- The last operation of a call. -/
  ends : ∀ {w w' : DeadmanWorker} {b b' : β} {a : α} {ended : WorkerAct}, I w b →
    handler w.pc b a = some (b', some ended) → w.step t ended = some w' → I w' b'

theorem step_serverEnd {I : DeadmanWorker → β → Prop} {a : Hosts.Act α δ}
    (hI : Keeps t.server serverHandler I) (h : I s.network.deadman.worker s.server)
    (hs : s.step cfg t serverHandler clientHandler a = some s') :
    I s'.network.deadman.worker s'.server := by
  cases Hosts.step_trans hs with
  | @network a _ hb hn =>
    by_cases ha : ∃ b, a = .worker b
    · obtain ⟨b, rfl⟩ := ha
      cases Network.step_trans hn with
      | worker hd =>
        refine hI.worker h ?_ (workerStep_cases hd).1
        rintro random res rfl
        cases hb
    · rw [worker_of_others hn fun b he => ha ⟨b, he⟩]
      exact h
  | server hstep => exact hI.operation h hstep
  | serverEnds hstep hn =>
    cases Network.step_trans hn with
    | worker hd => exact hI.ends h hstep (workerStep_cases hd).1
  | client => exact h
  | clientEnds hstep hn =>
    rw [worker_of_others hn (by simp)]
    exact h

theorem step_clientEnd {I : DeadmanWorker → γ → Prop} {a : Hosts.Act α δ}
    (hI : Keeps t.client clientHandler I) (h : I s.network.clientDeadman.worker s.client)
    (hs : s.step cfg t serverHandler clientHandler a = some s') :
    I s'.network.clientDeadman.worker s'.client := by
  cases Hosts.step_trans hs with
  | @network a _ hb hn =>
    by_cases ha : ∃ b, a = .clientWorker b
    · obtain ⟨b, rfl⟩ := ha
      cases Network.step_trans hn with
      | clientWorker hd =>
        refine hI.worker h ?_ (workerStep_cases hd).1
        rintro random res rfl
        cases hb
    · rw [clientWorker_of_others hn fun b he => ha ⟨b, he⟩]
      exact h
  | server => exact h
  | serverEnds hstep hn =>
    rw [clientWorker_of_others hn (by simp)]
    exact h
  | client hstep => exact hI.operation h hstep
  | clientEnds hstep hn =>
    cases Network.step_trans hn with
    | clientWorker hd => exact hI.ends h hstep (workerStep_cases hd).1

/-- **What a worker and its handler keep holds on both ends.** -/
theorem run_ends {I : DeadmanWorker → β → Prop} {J : DeadmanWorker → γ → Prop}
    (hI : Keeps t.server serverHandler I) (hJ : Keeps t.client clientHandler J)
    (hserver : I DeadmanWorker.new server) (hclient : J DeadmanWorker.new client)
    (hrun : run (Hosts.step cfg t serverHandler clientHandler) (.new server client) acts = some s) :
    I s.network.deadman.worker s.server ∧ J s.network.clientDeadman.worker s.client :=
  run_invariant (I := fun s => I s.network.deadman.worker s.server ∧
      J s.network.clientDeadman.worker s.client)
    (fun h hs => ⟨step_serverEnd hI h.1 hs, step_clientEnd hJ h.2 hs⟩) ⟨hserver, hclient⟩ hrun

end Runs

end Daisyway.Net.Brokers
