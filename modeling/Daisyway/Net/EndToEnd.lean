import Daisyway.Net.System
import Mathlib.Data.List.NodupEquivFin

/-! # End-to-end agreement

What the worker of the deadman hands to its broker are, apart from its own erases, the calls the
manager made, in order; what has not been handed over yet is in the queue or with the manager
(`Passed`). Together with the account of the tasks (`Delivers`) and of the connections (`Linked`)
this gives the main result: the fresh keys the server installs are a subsequence of the keys the
client negotiated (`end_to_end_agreement`). -/

namespace Daisyway.Net.EndToEnd

open Daisyway.Prim Daisyway.Crypto.Basics Daisyway.Crypto.Kdf Daisyway.Crypto.Protocol
open Daisyway.Crypto.Lockstep Daisyway.Lib.Run Daisyway.Lib.Lists Daisyway.Osk.Deadman
open Daisyway.Net.Manager Daisyway.Net.Server Daisyway.Net.Delivery Daisyway.Net.Links
open Daisyway.Net.System

/-! ### Through the deadman -/

/-- The calls with a fresh key. -/
def freshCalls (calls : List SetOsk) : List SetOsk := calls.filter fun call => call.reason = .fresh

theorem freshCalls_append (calls calls' : List SetOsk) :
    freshCalls (calls ++ calls') = freshCalls calls ++ freshCalls calls' :=
  List.filter_append ..

/-- The call a request asks for. -/
def requestCall : DeadmanRequest → SetOsk
  | .setOsk key reason => ⟨key, reason⟩

/-- The request the worker has taken and not yet passed on. -/
def current (w : DeadmanWorker) : List SetOsk :=
  match w.pc with
  | .set key reason => [⟨key, reason⟩]
  | _ => []

/-- The fresh calls given to the deadman: those made to the broker and those still on their way. -/
def handed (d : OskDeadman) : List SetOsk :=
  freshCalls (d.worker.calls ++ current d.worker ++ d.queue.map requestCall)

theorem handed_setOsk {d d' : OskDeadman} {call : SetOsk} (h : d.setOsk call = some d') :
    handed d' = handed d ++ freshCalls [call] := by
  unfold OskDeadman.setOsk at h
  split_ifs at h
  cases h
  simp only [handed, List.map_append, List.map_cons, List.map_nil, requestCall,
    ← List.append_assoc, freshCalls_append]

/-- The worker adds only erases. -/
theorem worker_step_calls {t : Timing} {w w' : DeadmanWorker} {a : WorkerAct}
    (hs : w.step t a = some w') (ha : ∀ req, a ≠ .received req) :
    freshCalls (w'.calls ++ current w') = freshCalls (w.calls ++ current w) := by
  rcases step_cases hs with ⟨now, rfl, hpc, -, rfl⟩ | ⟨now, rfl, hpc, -, rfl⟩ |
    ⟨n, key, reason, rfl, -, -⟩ | ⟨n, rfl, hpc, rfl⟩ | ⟨n, now, rfl, hpc, -, rfl⟩ |
    ⟨random, res, call, rfl, hcall, rfl⟩
  · simp [current, hpc]
  · simp [current, hpc]
  · exact absurd rfl (ha _)
  · simp [current, hpc]
  · simp [current, hpc]
  · have hnone : current ⟨w.pc.afterCall res, w.calls ++ [call]⟩ = [] := by
      unfold current
      cases res with
      | ok =>
        by_cases hclose : w.pc = .close
        · simp [WorkerPc.afterCall, hclose]
        · simp [WorkerPc.afterCall, hclose]
      | err | panicked => rfl
    rw [hnone, List.append_nil]
    simp only [freshCalls_append]
    congr 1
    -- the call is the request just taken, or an erase
    unfold current
    cases hpc : w.pc with
    | set key reason =>
      rw [hpc] at hcall
      rw [← Option.some.inj hcall]
    | start | expire | close =>
      rw [hpc] at hcall
      rw [← Option.some.inj hcall]
      rfl
    | arm | recv | returned | failed | panicked =>
      rw [hpc] at hcall
      cases hcall

/-- **A step of the worker loses no request and adds none.** -/
theorem handed_workerStep {t : Timing} {closed : Bool} {d d' : OskDeadman} {a : WorkerAct}
    (h : d.workerStep t closed a = some d') : handed d' = handed d := by
  obtain ⟨hs, ⟨req, rfl, hq⟩ | ⟨ha, hq⟩⟩ := workerStep_cases h
  · -- the request moves from the queue to the worker
    obtain ⟨key, reason⟩ := req
    obtain ⟨n, hpc, hw⟩ := step_received hs
    have hcurrent : current d.worker = [] := by simp [current, hpc]
    have hcurrent' : current d'.worker = [⟨key, reason⟩] := by rw [hw]; rfl
    have hcalls : d'.worker.calls = d.worker.calls := by rw [hw]
    unfold handed
    rw [hq, hcurrent, hcurrent', hcalls, List.append_nil, List.map_cons]
    simp [requestCall]
  · unfold handed
    rw [freshCalls_append, worker_step_calls hs ha, hq, ← freshCalls_append]

/-! ### Through the manager -/

/-- The call the manager waits for. -/
def sendingCalls (s : TcpServer) : List SetOsk := (s.sending.map Sending.call).toList

/-- The fresh keys forwarded by the manager are those given to the deadman, followed by the one the
manager is about to give to it; the last may be lost when the loop ends. -/
structure Passed (d : OskDeadman) (s : TcpServer) : Prop where
  front : handed d ++ freshCalls (sendingCalls s) <+: freshCalls (s.forwarded.map Prod.snd)
  running : s.ended = none →
    handed d ++ freshCalls (sendingCalls s) = freshCalls (s.forwarded.map Prod.snd)

theorem passed_new : Passed OskDeadman.start TcpServer.new := ⟨List.prefix_rfl, fun _ => rfl⟩

/-- An event forwards what the manager then waits for. -/
theorem forwardedBy_calls (m : ConnectionManager) (ev : StreamEvent) :
    (forwardedBy ev (m.onEvent ev).2).map Prod.snd = (m.onEvent ev).2.setOsk.toList := by
  have ht := onEvent_trans m ev
  generalize m.onEvent ev = r at ht
  obtain ⟨m', e⟩ := r
  cases ht <;> rfl

section Steps
variable {E : Externals} {params : DaisywayProtocolParameters} {d d' : OskDeadman}
  {s s' : TcpServer}

theorem passed_onEvent (h : Passed d s) (hrun : s.ended = none) (hsend : s.sending = none)
    (ev : StreamEvent) : Passed d (s.onEvent ev) := by
  have hold := h.running hrun
  have hnone : sendingCalls s = [] := by
    unfold sendingCalls
    rw [hsend]
    rfl
  have hsent : sendingCalls (s.onEvent ev) = (s.manager.onEvent ev).2.setOsk.toList := by
    simp only [sendingCalls, TcpServer.onEvent, Option.map_map, Function.comp_def, Option.map_id']
  have hforwarded : (s.onEvent ev).forwarded.map Prod.snd =
      s.forwarded.map Prod.snd ++ (s.manager.onEvent ev).2.setOsk.toList := by
    simp only [TcpServer.onEvent, List.map_append, forwardedBy_calls]
  have heq : handed d ++ freshCalls (sendingCalls (s.onEvent ev)) =
      freshCalls ((s.onEvent ev).forwarded.map Prod.snd) := by
    rw [hsent, hforwarded, freshCalls_append, ← hold, hnone]
    simp [freshCalls]
  exact ⟨heq ▸ List.prefix_rfl, fun _ => heq⟩

/-- When the loop ends, the key the manager waits for is lost. -/
theorem passed_endLoop (h : Passed d s) (why : LoopEnd) : Passed d (s.endLoop why) := by
  refine ⟨List.IsPrefix.trans ?_ h.front, fun he => ?_⟩
  · simp only [sendingCalls, TcpServer.endLoop, freshCalls, Option.map_none, Option.toList_none,
      List.filter_nil, List.append_nil]
    exact List.prefix_append _ _
  · cases he

/-- A step of the server other than the return of its OSK handler. -/
theorem passed_step (h : Passed d s) {a : TcpServer.Act} (ha : a ≠ .oskSent)
    (hs : s.step E params a = some s') : Passed d s' := by
  cases TcpServer.step_trans hs with
  | accept hi =>
    obtain ⟨hrun, hsend⟩ := TcpServer.idle_iff.mp hi
    exact passed_onEvent h hrun hsend _
  | @recv ev rest hi hq =>
    obtain ⟨hrun, hsend⟩ := TcpServer.idle_iff.mp hi
    have hrest : Passed d { s with queue := rest } := ⟨h.front, h.running⟩
    exact passed_onEvent hrest hrun hsend _
  | acceptFailed hi => exact passed_endLoop h _
  | oskFailed hsend => exact passed_endLoop h _
  | oskSent hsend => exact absurd rfl ha
  | task ht hstep => exact ⟨h.front, h.running⟩

/-- The OSK handler returns when the call is in the queue of the deadman. -/
theorem passed_oskSent (h : Passed d s) {sending : Sending} (hsend : s.sending = some sending)
    (hd : d.setOsk sending.call = some d') (hs : s.step E params .oskSent = some s') :
    Passed d' s' := by
  have hcalls : sendingCalls s = [sending.call] := by
    unfold sendingCalls
    rw [hsend]
    rfl
  cases TcpServer.step_trans hs with
  | oskSent _ =>
    have hsame : handed d' ++ freshCalls (sendingCalls { s with
        sending := none, tasks := abort s.removed s.tasks }) =
          handed d ++ freshCalls (sendingCalls s) := by
      rw [handed_setOsk hd, hcalls]
      simp [sendingCalls, freshCalls]
    exact ⟨hsame ▸ h.front, fun hrun => hsame.trans (h.running hrun)⟩

end Steps

/-! ### The whole system -/

/-- The invariant of the system. -/
structure SystemInv (cfg : Config) (w : World) : Prop where
  linked : Linked cfg w.ends
  refines : w.server.Refines
  passed : Passed w.deadman w.server
  delivers : w.server.tasks.length < connectionIds → Delivers w.server

theorem systemInv_new (cfg : Config) : SystemInv cfg World.new :=
  ⟨linked_new cfg, TcpServer.refines_new, passed_new, fun _ => delivers_new⟩

section Runs
variable {cfg : Config} {t : Timing} {w w' : World}

theorem SystemInv.delivers_step (h : SystemInv cfg w) {server : TcpServer} {a : TcpServer.Act}
    (hs : w.server.step cfg.ext cfg.server a = some server)
    (hlt : server.tasks.length < connectionIds) : Delivers server :=
  step_delivers h.refines (h.delivers ((TcpServer.step_tasks_length hs).trans_lt hlt)) hs hlt

/-- **Every step of the system keeps its invariant.** -/
theorem step_systemInv {a : World.Act} (h : SystemInv cfg w) (hs : w.step cfg t a = some w') :
    SystemInv cfg w' := by
  have hlinked := step_linked h.linked hs
  cases a with
  | connect =>
    simp only [World.step] at hs
    split_ifs at hs
    cases hs
    exact ⟨hlinked, h.refines, h.passed, h.delivers⟩
  | lose c =>
    cases hs
    exact ⟨hlinked, h.refines, h.passed, h.delivers⟩
  | client a =>
    obtain ⟨conn, -, hs⟩ := Option.bind_eq_some_iff.mp hs
    obtain ⟨conn', -, rfl⟩ := Option.map_eq_some_iff.mp hs
    exact ⟨hlinked, h.refines, h.passed, h.delivers⟩
  | cutRequests c n | cutAcks c n =>
    obtain ⟨conn, -, rfl⟩ := Option.map_eq_some_iff.mp hs
    exact ⟨hlinked, h.refines, h.passed, h.delivers⟩
  | server a =>
    cases serverStep_trans hs with
    | accept hb hserver =>
      exact ⟨hlinked, TcpServer.step_refines h.refines hserver,
        passed_step h.passed (by simp) hserver, h.delivers_step hserver⟩
    | oskSent hsend hd hserver =>
      exact ⟨hlinked, TcpServer.step_refines h.refines hserver,
        passed_oskSent h.passed hsend hd hserver, h.delivers_step hserver⟩
    | proto hk ht hi hconn hio hserver =>
      exact ⟨hlinked, TcpServer.step_refines h.refines hserver,
        passed_step h.passed (by simp) hserver, h.delivers_step hserver⟩
    | own hserver hacc hsent hproto =>
      exact ⟨hlinked, TcpServer.step_refines h.refines hserver,
        passed_step h.passed hsent hserver, h.delivers_step hserver⟩
  | worker a =>
    obtain ⟨deadman, hd, rfl⟩ := Option.map_eq_some_iff.mp hs
    have hhanded := handed_workerStep hd
    exact ⟨hlinked, h.refines, ⟨hhanded ▸ h.passed.front, hhanded ▸ h.passed.running⟩, h.delivers⟩

/-- The keys of the tasks, one after the other, are a subsequence of the client's keys. -/
theorem SystemInv.taskKeys_sublist (h : SystemInv cfg w) (hm : Mirrored cfg.server cfg.client)
    (hk : cfg.Consistent) :
    (w.server.tasks.map fun task => task.proto.keys).flatten.Sublist w.clientKeys := by
  have hlen : w.streams.length = w.server.tasks.length := by
    simpa [World.ends] using h.linked.streams_length
  have hserved : List.Forall₂ List.Sublist (w.server.tasks.map fun task => task.proto.keys)
      (w.ends.streams.map fun stream => stream.elim [] (keysOn w.ends)) := by
    refine List.forall₂_iff_get.mpr ⟨by simp [World.ends, hlen], fun i hi hi' => ?_⟩
    simp only [List.length_map] at hi
    have hlt : i < w.streams.length := hlen ▸ hi
    have hstream : w.ends.streams[i]? = some (some w.streams[i]) := by simp [World.ends, hlt]
    obtain ⟨conn, hconn⟩ : ∃ conn, w.conns[w.streams[i]]? = some conn :=
      ⟨_, List.getElem?_eq_getElem (h.linked.streams_lt hstream)⟩
    have hlink := h.linked.served i _ _ conn (List.getElem?_eq_getElem hi) hstream hconn
    have hkeys : keysOn w.ends w.streams[i] = conn.client.keys := keysOn_eq hconn
    simp only [List.get_eq_getElem, List.getElem_map, World.ends, Option.elim_some]
    exact hkeys ▸ (hlink.keys_prefix hm hk).sublist
  exact (flatten_sublist_of_forall₂ hserved).trans h.linked.streams_sublist

/-- The fresh keys handed to the broker of the server. -/
def freshKeys (w : World) : List Key := (freshCalls w.deadman.worker.calls).map SetOsk.key

/-- **End-to-end agreement.** In every run of the system with fewer than `2 ^ 64` connections, the
fresh keys the server's worker hands to its broker are a subsequence of the keys the client
negotiated: none the client did not derive, none more often, and none older after a newer one. -/
theorem end_to_end_agreement (hm : Mirrored cfg.server cfg.client) (hk : cfg.Consistent)
    {acts : List World.Act} (hrun : run (World.step cfg t) World.new acts = some w)
    (hlt : w.server.tasks.length < connectionIds) :
    (freshKeys w).Sublist w.clientKeys ∧
      (∀ key, (freshKeys w).count key ≤ w.clientKeys.count key) ∧
      ∃ position : ℕ ↪o ℕ, ∀ i key, (freshKeys w)[i]? = some key →
        w.clientKeys[position i]? = some key := by
  have hinv : SystemInv cfg w := run_invariant step_systemInv (systemInv_new cfg) hrun
  have hforwarded := forwarded_sublist hinv.refines (hinv.delivers hlt) hlt
  have hcalls : (freshCalls w.deadman.worker.calls).Sublist
      (w.server.tasks.map fun task => task.proto.keys.map setFreshOsk).flatten := by
    have hhanded : freshCalls w.deadman.worker.calls <+: handed w.deadman := by
      unfold handed
      rw [List.append_assoc, freshCalls_append]
      exact List.prefix_append _ _
    have hfront := hhanded.trans ((List.prefix_append _ _).trans hinv.passed.front)
    exact hfront.sublist.trans (List.filter_sublist.trans hforwarded)
  have hkeys : (freshKeys w).Sublist w.clientKeys := by
    have hmap := hcalls.map SetOsk.key
    rw [List.map_flatten, List.map_map] at hmap
    refine hmap.trans ?_
    simpa [Function.comp_def, setFreshOsk] using hinv.taskKeys_sublist hm hk
  refine ⟨hkeys, fun key => hkeys.count_le key, ?_⟩
  obtain ⟨position, hposition⟩ := List.sublist_iff_exists_orderEmbedding_getElem?_eq.mp hkeys
  exact ⟨position, fun i key hi => (hposition i).symm.trans hi⟩

end Runs

/-! ### A sample run -/

/-- The key both ends derive in a sample round. -/
def roundOsk (nonce : Nonce) : Key :=
  deriveDaisywayKey sampleExternals.shake256
    (sampleConfig (sampleKey 1) (sampleKey 1)).server nonce (sampleKey 1)

/-- The key of the first sample round. -/
def sampleOsk : Key := roundOsk (zeroed 32)

/-- A key is negotiated on the stream `i`, and the server installs it. -/
def installRound (i : StreamId) (nonce : Nonce) : List World.Act :=
  [.server (.task i (.proto (.fetched (sampleAnswer (sampleKey 1)) nonce))),
    .server (.task i (.proto (.wrote 48))),
    .client (.read (RekeyReq.new (sampleKey 1).id.asBytes nonce).asBytes),
    .client (.fetched (sampleAnswer (sampleKey 1))), .client .wroteAck,
    .server (.task i (.proto (.read rekeyAck.dummyData))), .server (.task i .sendOsk),
    .server .recv, .server .oskSent, .worker (.received (.setOsk (roundOsk nonce) .fresh)),
    .worker (.broker (zeroed 32) .ok)]

/-- The client negotiates a key, loses its connection, and negotiates another one on a new
connection. -/
def sampleReconnect : List World.Act :=
  [.worker (.broker (zeroed 32) .ok), .worker (.arm 0), .connect, .server .accept] ++
    installRound 0 (zeroed 32) ++
    [.worker (.arm 60), .client (.oskSet true), .cutRequests 0 0, .client .readFailed, .connect,
      .server .accept] ++
    installRound 1 (Vector.replicate 32 7)

/-- In the sample run the server installs the keys of both connections. -/
theorem end_to_end_agreement_sample :
    ∃ w, run (World.step (sampleConfig (sampleKey 1) (sampleKey 1)) ⟨150, 2 ^ 63 - 1⟩) World.new
        sampleReconnect = some w ∧
      w.streams = [0, 1] ∧
      freshKeys w = [roundOsk (zeroed 32), roundOsk (Vector.replicate 32 7)] ∧
      (freshKeys w).Sublist w.clientKeys := by
  have h : ((run (World.step (sampleConfig (sampleKey 1) (sampleKey 1)) ⟨150, 2 ^ 63 - 1⟩) World.new
      sampleReconnect).map fun w => (w.streams, freshKeys w, w.server.tasks.length)) =
      some ([0, 1], [roundOsk (zeroed 32), roundOsk (Vector.replicate 32 7)], 2) := by
    decide +kernel
  obtain ⟨w, hw, he⟩ := Option.map_eq_some_iff.mp h
  obtain ⟨hstreams, he⟩ := Prod.mk.inj he
  obtain ⟨hfresh, hlen⟩ := Prod.mk.inj he
  refine ⟨w, hw, hstreams, hfresh, (end_to_end_agreement (sampleConfig_mirrored _ _)
    (sampleConfig_consistent _) hw ?_).1⟩
  rw [hlen]
  decide

end Daisyway.Net.EndToEnd
