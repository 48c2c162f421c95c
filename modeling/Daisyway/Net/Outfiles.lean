import Daisyway.Net.Brokers
import Daisyway.Net.Convergence
import Daisyway.Osk.Outfile

/-! # The output files of two daemons

A deployment in which both daemons write their keys to files. On each end the worker and its handler
are in step (`Phase`), whatever the rest of the deployment does.

A user of the daemons sees their files and their lines on stdout. Where nothing is on its way
between the ends and the last line of an end says `exchanged`, its file holds the last key
negotiated with the other end; where both say so, the two files are the same (`files_agree`). -/

namespace Daisyway.Net.Outfiles

open Daisyway.Prim Daisyway.Crypto.Kdf Daisyway.Crypto.Lockstep
open Daisyway.Lib.Run Daisyway.Osk.Deadman Daisyway.Osk.Outfile
open Daisyway.Net.Manager Daisyway.Net.Server Daisyway.Net.EndToEnd Daisyway.Net.Deployment
open Daisyway.Net.Convergence Daisyway.Net.Brokers
open Daisyway.Lib.Base64 (encode)

/-- The phases of a worker and its handler are kept by both. -/
theorem keeps_phase (t : Timing) (path : List Char) (file : Option Bytes) :
    Keeps t (OutfileOskHandler.step path) fun worker handler =>
      Phase file path ⟨worker, handler⟩ where
  worker h ha hs := phase_worker h ha hs
  operation h hs := phase_file (t := t) h hs rfl
  ends h hs hw := phase_file h hs (Option.map_eq_some_iff.mpr ⟨_, hw, rfl⟩)

theorem outputLine_injective {path : List Char} {r r' : SetOskReason}
    (h : outputLine path r = outputLine path r') : r = r' := by
  have hwhy : why r = why r' := List.append_cancel_left h
  revert hwhy
  cases r <;> cases r' <;> decide

/-- An end whose last line says `exchanged` was given a fresh key last, and its file holds it. -/
theorem exchanged {file : Option Bytes} {path : List Char} {e : OutfileWorker} {key : Key}
    (h : Phase file path e) (hcall : e.handler.call = none) (hpc : e.worker.pc ≠ .panicked)
    (hkey : (freshCalls e.worker.calls).getLast? = some (setFreshOsk key))
    (hline : e.handler.stdout.getLast? = some (outputLine path .fresh)) :
    e.handler.file = some (encode key.toList) := by
  obtain ⟨-, hlines, hwhole⟩ := h.complete hcall hpc
  rw [hlines, lines, List.getLast?_map] at hline
  obtain ⟨call, hlast, hreason⟩ := Option.map_eq_some_iff.mp hline
  have hkey' : call = setFreshOsk key :=
    last_eq_of_fresh hlast (outputLine_injective hreason) hkey
  rw [hwhole call hlast, hkey']
  rfl

section Runs
variable {cfg : Config} {t : Timings} {serverPath clientPath : List Char}
  {serverFile clientFile : Option Bytes} {s : Hosts OutfileOskHandler OutfileOskHandler}
  {acts : List (Hosts.Act FileAct FileAct)}

/-- **The files agree.** In every run of two daemons with output files and fewer than `2 ^ 64`
connections, whatever other hosts do and whatever the writes return, in every state in which nothing
is on its way between the ends and no call is being made: an end whose last line says `exchanged`
has the last key of the active connection in its file, so that two ends that both say so have the
same file. -/
theorem files_agree (hm : Mirrored cfg.server cfg.client) (hk : cfg.Consistent)
    (hrun : run (Hosts.step cfg t (OutfileOskHandler.step serverPath)
      (OutfileOskHandler.step clientPath)) (.new (.new serverFile) (.new clientFile)) acts = some s)
    (hlt : s.network.server.tasks.length < connectionIds) {i : StreamId} {task : Task}
    {front : List Conn} {conn : Conn} (hs : Settled s.network i task front conn)
    (hserver : s.server.call = none) (hclient : s.client.call = none)
    (hworker : s.network.deadman.worker.pc ≠ .panicked) :
    ∃ key, task.proto.keys.getLast? = some key ∧
      (s.server.stdout.getLast? = some (outputLine serverPath .fresh) →
        s.server.file = some (encode key.toList)) ∧
      (s.client.stdout.getLast? = some (outputLine clientPath .fresh) →
        s.client.file = some (encode key.toList)) := by
  obtain ⟨acts', hnet⟩ := run_network hrun
  obtain ⟨hservers, hclients⟩ := run_ends (keeps_phase t.server serverPath serverFile)
    (keeps_phase t.client clientPath clientFile) phase_new phase_new hrun
  have hinv := run_networkInv hnet
  obtain ⟨key, hkey⟩ := Option.ne_none_iff_exists'.mp fun hnone =>
    hs.negotiated (List.getLast?_eq_none_iff.mp hnone)
  refine ⟨key, hkey, ?_, ?_⟩
  · exact exchanged hservers hserver hworker (getLast?_of_suffix (server_settled hinv hs hlt) hkey)
  · refine exchanged hclients hclient (fun hp => ?_)
      (getLast?_of_suffix (client_settled hinv hs hm hk) hkey)
    have hrunning := hs.clientRunning
    rw [show s.network.clientDeadman.worker.pc = .panicked from hp] at hrunning
    cases hrunning

end Runs

/-! ### A sample run -/

/-- An action of the deployment, with the operations of a call that succeeds. -/
def inOperations : Network.Act → List (Hosts.Act FileAct FileAct)
  | .worker (.broker random _) =>
    [.server (.call random), .server (.created true), .server (.wrote 30), .server (.wrote 14),
      .server (.printed true)]
  | .clientWorker (.broker random _) =>
    [.client (.call random), .client (.created true), .client (.wrote 44), .client (.printed true)]
  | a => [.network a]

/-- The sample run of `Convergence` with files. -/
def sampleFiles : List (Hosts.Act FileAct FileAct) := sampleConvergence.flatMap inOperations

theorem files_agree_sample :
    ∃ (s : Hosts OutfileOskHandler OutfileOskHandler) (key : Key),
      run (Hosts.step (sampleConfig (sampleKey 1) (sampleKey 1)) sampleTimings
        (OutfileOskHandler.step ['s']) (OutfileOskHandler.step ['c']))
        (.new (.new none) (.new none)) sampleFiles = some s ∧
      s.server.file = some (encode key.toList) ∧ s.client.file = some (encode key.toList) := by
  have h : (run (Hosts.step (sampleConfig (sampleKey 1) (sampleKey 1)) sampleTimings
      (OutfileOskHandler.step ['s']) (OutfileOskHandler.step ['c']))
      (.new (.new none) (.new none)) sampleFiles).any (fun s => decide (
        SampleEnd s.network ∧ s.server.call = none ∧ s.client.call = none ∧
        s.network.deadman.worker.pc ≠ .panicked ∧
        s.server.stdout.getLast? = some (outputLine ['s'] .fresh) ∧
        s.client.stdout.getLast? = some (outputLine ['c'] .fresh))) = true := by
    decide +kernel
  obtain ⟨s, hrun, he⟩ := (Option.any_eq_true _ _).mp h
  obtain ⟨hend, hserver, hclient, hworker, hline, hline'⟩ := of_decide_eq_true he
  obtain ⟨task, conn, hsettled, hlt⟩ := hend.settled
  obtain ⟨key, -, hfile, hfile'⟩ := files_agree (sampleConfig_mirrored _ _)
    (sampleConfig_consistent _) hrun hlt hsettled hserver hclient hworker
  exact ⟨s, key, hrun, hfile hline, hfile' hline'⟩

end Daisyway.Net.Outfiles
