import Daisyway.Net.Answers
import Daisyway.Net.Convergence
import Daisyway.Net.Provenance
import Daisyway.Simulator.Consistency

/-! # The daemons with the simulator

The two daemons, the hosts around them and the simulator as the KME of both: a request of a daemon
is handled by the simulator at some time after it was made, and the answer arrives later, or never.
Anybody else may send requests to the simulator too. A request can be handled when nobody waits for
the answer any more (its task was aborted, the connection to the simulator broke), so the handling
of requests has no condition.

Nothing is assumed about the KME here: that it is consistent is what the invariant of the simulator
gives at each answer (`network_step`). So the results about a deployment hold of the daemons as they
are shipped with the simulator (`testbed_agreement`); moreover none of the answers of the simulator
makes a daemon panic, and the server installs no key twice. -/

namespace Daisyway.Simulator.Testbed

open Daisyway.Prim Daisyway.Etsi014 Daisyway.Crypto.Basics Daisyway.Crypto.Hash
open Daisyway.Crypto.Kdf Daisyway.Crypto.Protocol
open Daisyway.Crypto.Lockstep (Config Conn)
open Daisyway.Lib.Run Daisyway.Lib.Lists Daisyway.Osk.Deadman
open Daisyway.Net.Manager Daisyway.Net.Server Daisyway.Net.Deployment Daisyway.Net.Convergence
open Daisyway.Net.Answers Daisyway.Net.Provenance
open Daisyway.Net.EndToEnd (freshCalls)
open Daisyway.Net.Zombies (panicked_of_step)
open Daisyway.Simulator.Requests Daisyway.Simulator.Consistency

/-! ### The model -/

/-- What the testbed is made of: the third-party functions, the connections of the daemons to the
simulator, and the parameters of the daemons. -/
structure Setup where
  stack : Stack
  shake256 : Shake
  serverEtsi : Etsi014Connection
  clientEtsi : Etsi014Connection
  server : DaisywayProtocolParameters
  client : DaisywayProtocolParameters

def Setup.ext (c : Setup) : Externals := ⟨c.shake256, c.stack.decode⟩

/-- The daemons of the testbed, with KMEs that may give the answers `kme`. -/
def Setup.config (c : Setup) (kme : Crypto.Lockstep.Kme) : Config :=
  ⟨c.ext, kme, c.server, c.client⟩

/-- What a daemon gets to see of a response of the simulator. -/
def answerOf (X : Stack) (r : Response) : KmeAnswer :=
  .response r.status (some r.body) (readKeys X r.body)

structure State where
  kme : Kme
  network : Network
  deriving DecidableEq

namespace State

def new : State := ⟨Kme.new, Network.new⟩

inductive Act where
  /-- The simulator handles a request of the server. -/
  | requestAny
  /-- The simulator handles a request of the client. -/
  | requestSpecific (id : Uuid)
  /-- The simulator handles a request of somebody else. -/
  | requestOther (path : Text) (query : Option Text)
  /-- The response `r`, number `k` of those on their way, arrives at the task `i` of the server. -/
  | answerAny (k : ℕ) (i : StreamId) (r : Response) (nonce : Nonce)
  /-- It arrives at the client. -/
  | answerSpecific (k : ℕ) (id : Uuid) (r : Response)
  /-- It arrives at somebody else, or its receiver is gone. -/
  | answerOther (k : ℕ)
  /-- A step of the daemons and the hosts around them. -/
  | network (a : Network.Act)
  deriving DecidableEq

variable (c : Setup)

/-- What the simulator does. -/
def Act.kmeActs : Act → List Kme.Act
  | .requestAny => [.handle (.any c.serverEtsi)]
  | .requestSpecific id => [.handle (.specific c.clientEtsi id)]
  | .requestOther path query => [.handle (.other path query)]
  | .answerAny k _ _ _ | .answerSpecific k _ _ | .answerOther k => [.deliver k]
  | .network _ => []

/-- What the daemons and the hosts around them do. -/
def Act.networkActs : Act → List Network.Act
  | .answerAny _ i r nonce => [.server (.task i (.proto (.fetched (answerOf c.stack r) nonce)))]
  | .answerSpecific _ _ r => [.client (.fetched (answerOf c.stack r))]
  | .network a => [a]
  | _ => []

/-- A response goes to the one who asked, and all answers are responses of the simulator. -/
def enabled (s : State) : Act → Bool
  | .answerAny k _ r _ => s.kme.pending[k]? = some (.any c.serverEtsi, r)
  | .answerSpecific k id r =>
    s.kme.pending[k]? = some (.specific c.clientEtsi id, r) ∧ clientRequested s.network = some id
  | .network a => unanswered a
  | _ => true

/-- One step of the testbed. -/
def step (t : Timings) (s : State) (a : Act) : Option State :=
  if s.enabled c a then
    (run (Kme.step c.stack) s.kme (a.kmeActs c)).bind fun kme =>
      (run (Network.step (c.config openKme) t) s.network (a.networkActs c)).map fun network =>
        ⟨kme, network⟩
  else none

variable {c} {t : Timings}

theorem step_some {s s' : State} {a : Act} (h : s.step c t a = some s') :
    s.enabled c a = true ∧ run (Kme.step c.stack) s.kme (a.kmeActs c) = some s'.kme ∧
      run (Network.step (c.config openKme) t) s.network (a.networkActs c) = some s'.network := by
  unfold step at h
  split_ifs at h with he
  obtain ⟨kme, hk, h⟩ := Option.bind_eq_some_iff.mp h
  obtain ⟨network, hn, rfl⟩ := Option.map_eq_some_iff.mp h
  exact ⟨he, hk, hn⟩

end State

/-! ### The simulator as the KME of a deployment -/

/-- The answers of the simulator, as the daemons read them: the key of an id is `keyOf`, and no
answer makes a daemon panic. -/
def simulatorKme (X : Stack) : Crypto.Lockstep.Kme where
  any answer :=
    match fetchKeyInternal X.decode answer with
    | .ok key => key.key = keyOf key.id
    | .err _ => true
    | .panicked => false
  specific id answer :=
    match fetchKeyInternal X.decode answer with
    | .ok key => key = ⟨id, keyOf id⟩
    | .err _ => true
    | .panicked => false

section Kme
variable {c : Setup} {t : Timings} {X : Stack}

theorem simulatorKme_consistent (c : Setup) : (c.config (simulatorKme c.stack)).Consistent := by
  intro a k a' k' ha hk ha' hk'
  simp only [Setup.config, Setup.ext] at hk hk'
  simp only [Setup.config, simulatorKme, hk, decide_eq_true_eq] at ha
  simp only [Setup.config, simulatorKme, hk', decide_eq_true_eq] at ha'
  rw [ha', ← ha]

theorem allowed_unanswered {w : Network} {a : Network.Act} (h : unanswered a = true) :
    Allowed (simulatorKme X) w a := by
  refine allowed_of_unanswered X.decode (fun answer e he => ⟨?_, fun id => ?_⟩) h
  · simp only [simulatorKme, he]
  · simp only [simulatorKme, he]

theorem fetch_answerOf (r : Response) :
    fetchKeyInternal X.decode (answerOf X r) = fetched X r := rfl

/-- The answers of the simulator are allowed. -/
theorem allowed_any (hX : X.Lawful) (id : Uuid) :
    (simulatorKme X).any (answerOf X (keyResponse X.codec id)) = true := by
  simp only [simulatorKme, fetch_answerOf, fetched_keyResponse hX, decide_true]

theorem allowed_specific (hX : X.Lawful) (id : Uuid) :
    (simulatorKme X).specific id (answerOf X (keyResponse X.codec id)) = true := by
  simp only [simulatorKme, fetch_answerOf, fetched_keyResponse hX, decide_true]

end Kme

/-! ### The invariant -/

/-- The daemons get to the simulator. -/
structure Setup.Good (c : Setup) : Prop where
  lawful : c.stack.Lawful
  server : GoodConnection c.stack c.serverEtsi
  client : GoodConnection c.stack c.clientEtsi

/-- The steps of the server in a run of the testbed. -/
def serverRun (c : Setup) (acts : List State.Act) : List TcpServer.Act :=
  (acts.flatMap (State.Act.networkActs c)).flatMap Network.serverActs

/-- The number of requests for new keys. -/
def newKeys (c : Setup) (acts : List State.Act) : ℕ :=
  encCount c.stack (acts.flatMap (State.Act.kmeActs c))

/-- The responses with new keys that have arrived. -/
def issued (X : Stack) (kme : Kme) : List Response :=
  (kme.returned.filter fun e => e.1.isEnc X).map Prod.snd

structure TestbedInv (c : Setup) (t : Timings) (acts : List State.Act) (s : State) : Prop where
  kme : Inv c.stack (newKeys c acts) s.kme
  network : run (Network.step (c.config (simulatorKme c.stack)) t) Network.new
    (acts.flatMap (State.Act.networkActs c)) = some s.network
  /-- Every key the server fetched arrived in a response of its own. -/
  fetched : ((fetches c.ext (serverRun c acts)).map fun f =>
    keyResponse c.stack.codec f.2.qkd.id).Sublist (issued c.stack s.kme)

section Inv
variable {c : Setup} {t : Timings} {s s' : State} {acts : List State.Act} {a : State.Act}

theorem good_kmeActs (hc : c.Good) : ∀ call, Kme.Act.handle call ∈ a.kmeActs c →
    call.Good c.stack := by
  intro call hcall
  cases a with
  | requestAny =>
    obtain rfl := Kme.Act.handle.inj (List.mem_singleton.mp hcall)
    exact hc.server
  | requestSpecific id =>
    obtain rfl := Kme.Act.handle.inj (List.mem_singleton.mp hcall)
    exact hc.client
  | requestOther path query =>
    obtain rfl := Kme.Act.handle.inj (List.mem_singleton.mp hcall)
    trivial
  | answerAny | answerSpecific | answerOther => cases List.mem_singleton.mp hcall
  | network => cases hcall

theorem run_kme (hrun : run (State.step c t) State.new acts = some s) :
    run (Kme.step c.stack) Kme.new (acts.flatMap (State.Act.kmeActs c)) = some s.kme :=
  run_project State.kme (State.Act.kmeActs c) (fun h => (State.step_some h).2.1) hrun

/-- The invariant of the simulator. -/
theorem kme_inv (hc : c.Good) (hrun : run (State.step c t) State.new acts = some s)
    (hlt : newKeys c acts < 2 ^ 64) : Inv c.stack (newKeys c acts) s.kme := by
  refine run_inv hc.lawful (run_kme hrun) (fun call hcall => ?_) hlt
  obtain ⟨a, -, ha⟩ := List.mem_flatMap.mp hcall
  exact good_kmeActs hc call ha

/-- A response on its way to the server has the key of an id. -/
theorem issued_any {k n : ℕ} {r : Response} {conn : Etsi014Connection} (hinv : Inv c.stack n s.kme)
    (hr : s.kme.pending[k]? = some (.any conn, r)) :
    (Call.any conn).isEnc c.stack = true ∧ ∃ id, r = keyResponse c.stack.codec id := by
  have hmem : (Call.any conn, r) ∈ s.kme.log :=
    List.mem_append_right _ (List.mem_of_getElem? hr)
  have henc := hinv.any conn r hmem
  obtain ⟨m, -, hm⟩ := hinv.issued _ hmem henc
  exact ⟨henc, Uuid.fromU128 m, hm⟩

/-- **The simulator is a consistent KME for the daemons**: each step is one of a deployment whose
KMEs give the answers of the simulator. -/
theorem network_step (hc : c.Good) {n : ℕ} (hinv : Inv c.stack n s.kme)
    (hs : s.step c t a = some s') :
    run (Network.step (c.config (simulatorKme c.stack)) t) s.network (a.networkActs c) =
      some s'.network := by
  obtain ⟨he, -, hn⟩ := State.step_some hs
  cases a with
  | requestAny | requestSpecific | requestOther | answerOther => exact hn
  | answerAny k i r nonce =>
    have hr : s.kme.pending[k]? = some (.any c.serverEtsi, r) := by simpa [State.enabled] using he
    obtain ⟨-, id, rfl⟩ := issued_any hinv hr
    simp only [State.Act.networkActs, run_singleton] at hn ⊢
    exact step_of_allowed (c.config openKme) hn (allowed_any hc.lawful id)
  | answerSpecific k id r =>
    obtain ⟨hr, hid⟩ : s.kme.pending[k]? = some (.specific c.clientEtsi id, r) ∧
        clientRequested s.network = some id := by simpa [State.enabled] using he
    obtain rfl := hinv.known _ _ _ (List.mem_append_right _ (List.mem_of_getElem? hr))
    simp only [State.Act.networkActs, run_singleton] at hn ⊢
    refine step_of_allowed (c.config openKme) hn fun id' hid' => ?_
    obtain rfl := Option.some.inj (hid.symm.trans hid')
    exact allowed_specific hc.lawful id
  | network a =>
    simp only [State.Act.networkActs, run_singleton] at hn ⊢
    exact step_of_allowed (c.config openKme) hn (allowed_unanswered he)

/-- No response is taken back. -/
theorem issued_kme {X : Stack} {kme kme' : Kme} {b : Kme.Act} (hs : kme.step X b = some kme') :
    (issued X kme).Sublist (issued X kme') := by
  cases b with
  | handle call =>
    rw [Kme.step_handle] at hs
    obtain rfl := Option.some.inj hs
    exact List.Sublist.refl _
  | deliver i =>
    obtain ⟨entry, -, rfl⟩ := Option.map_eq_some_iff.mp hs
    unfold issued
    rw [List.filter_append, List.map_append]
    exact List.sublist_append_left _ _

theorem issued_step (hs : s.step c t a = some s') :
    (issued c.stack s.kme).Sublist (issued c.stack s'.kme) := by
  refine run_invariant (I := fun kme => (issued c.stack s.kme).Sublist (issued c.stack kme))
    (fun h hb => h.trans (issued_kme hb)) (List.Sublist.refl _) (State.step_some hs).2.1

/-- A step without an answer of the simulator fetches nothing. -/
theorem fetches_unanswered {a : Network.Act} (h : unanswered a = true) :
    fetches c.ext (Network.serverActs a) = [] := by
  unfold unanswered at h
  split at h
  · obtain ⟨e, he⟩ := fetch_noAnswer c.stack.decode h
    simp [Setup.ext, Network.serverActs, fetches, fetchOf, he]
  · rfl
  · next hserver hclient =>
    cases a with
    | server a =>
      cases a with
      | task i ta =>
        cases ta with
        | proto pa =>
          cases pa with
          | fetched answer nonce => exact absurd rfl (hserver i answer nonce)
          | wrote | writeFailed | read | readFailed | oskSet | slept => rfl
        | sendOsk | sendExit | cancel => rfl
      | accept | acceptFailed | recv | oskSent | oskFailed => rfl
    | _ => rfl

theorem testbedInv_new : TestbedInv c t [] State.new :=
  ⟨inv_new, rfl, List.Sublist.refl _⟩

/-- The keys fetched after one more step. -/
theorem fetched_step (hc : c.Good) (h : TestbedInv c t acts s) (hs : s.step c t a = some s') :
    ((fetches c.ext (serverRun c (acts ++ [a]))).map fun f =>
      keyResponse c.stack.codec f.2.qkd.id).Sublist (issued c.stack s'.kme) := by
  have hsplit : serverRun c (acts ++ [a]) =
      serverRun c acts ++ (a.networkActs c).flatMap Network.serverActs := by
    simp only [serverRun, List.flatMap_append, List.flatMap_cons, List.flatMap_nil,
      List.append_nil]
  rw [hsplit, fetches_append, List.map_append]
  obtain ⟨he, hk, -⟩ := State.step_some hs
  -- all steps but one fetch nothing
  have hnone (hnil : fetches c.ext ((a.networkActs c).flatMap Network.serverActs) = []) :
      ((fetches c.ext (serverRun c acts)).map (fun f => keyResponse c.stack.codec f.2.qkd.id) ++
        (fetches c.ext ((a.networkActs c).flatMap Network.serverActs)).map fun f =>
          keyResponse c.stack.codec f.2.qkd.id).Sublist (issued c.stack s'.kme) := by
    rw [hnil, List.map_nil, List.append_nil]
    exact h.fetched.trans (issued_step hs)
  cases a with
  | requestAny | requestSpecific | requestOther | answerSpecific | answerOther => exact hnone rfl
  | network a =>
    refine hnone ?_
    simp only [State.Act.networkActs, List.flatMap_cons, List.flatMap_nil, List.append_nil]
    exact fetches_unanswered he
  | answerAny k i r nonce =>
    have hr : s.kme.pending[k]? = some (.any c.serverEtsi, r) := by simpa [State.enabled] using he
    obtain ⟨henc, id, rfl⟩ := issued_any h.kme hr
    have hnew : fetches c.ext
        (((State.Act.answerAny k i (keyResponse c.stack.codec id) nonce).networkActs c).flatMap
          Network.serverActs) = [(i, ⟨nonce, ⟨id, keyOf id⟩⟩)] := by
      simp [Setup.ext, State.Act.networkActs, Network.serverActs, fetches, fetchOf, fetch_answerOf,
        fetched_keyResponse hc.lawful]
    have hissued : issued c.stack s'.kme =
        issued c.stack s.kme ++ [keyResponse c.stack.codec id] := by
      simp only [State.Act.kmeActs, run_singleton, Kme.step, hr, Option.map_some] at hk
      rw [← Option.some.inj hk]
      simp [issued, henc]
    rw [hnew, hissued]
    exact h.fetched.append (List.Sublist.refl _)

/-- **A step keeps the invariant**, while the counter of the simulator does not wrap. -/
theorem step_testbedInv (hc : c.Good) (h : TestbedInv c t acts s) (hs : s.step c t a = some s')
    (hkme : Inv c.stack (newKeys c (acts ++ [a])) s'.kme) : TestbedInv c t (acts ++ [a]) s' := by
  refine ⟨hkme, ?_, fetched_step hc h hs⟩
  rw [List.flatMap_append, run_append_some]
  refine ⟨s.network, h.network, ?_⟩
  rw [List.flatMap_cons, List.flatMap_nil, List.append_nil]
  exact network_step hc h.kme hs

theorem run_testbedInv (hc : c.Good) (hrun : run (State.step c t) State.new acts = some s)
    (hlt : newKeys c acts < 2 ^ 64) : TestbedInv c t acts s := by
  induction acts using List.reverseRecOn generalizing s with
  | nil =>
    obtain rfl := Option.some.inj hrun
    exact testbedInv_new
  | append_singleton acts a ih =>
    obtain ⟨s1, h1, hs⟩ := run_concat_some.mp hrun
    have hle : newKeys c acts ≤ newKeys c (acts ++ [a]) := by
      simp only [newKeys, encCount, List.flatMap_append, List.countP_append]
      exact Nat.le_add_right _ _
    exact step_testbedInv hc (ih h1 (hle.trans_lt hlt)) hs (kme_inv hc hrun hlt)

end Inv

/-! ### Panics -/

/-- No protocol has panicked. -/
structure Unpanicked (w : Network) : Prop where
  tasks : ∀ (i : ℕ) (task : Task), w.server.tasks[i]? = some task → task.proto.pc ≠ .panicked
  conns : ∀ conn ∈ w.conns, conn.client.pc ≠ .panicked

section Panics
variable {c : Setup} {t : Timings} {w w' : Network} {a : Network.Act}

theorem unpanicked_new : Unpanicked Network.new :=
  ⟨fun i task ht => by simp [Network.new, TcpServer.new] at ht, fun conn hc => by cases hc⟩

theorem allowsServer_of_step {cfg : Config} {i : StreamId} {pa : ServerProtocol.Act}
    (hs : w.step cfg t (.server (.task i (.proto pa))) = some w') :
    cfg.kme.allowsServer pa = true := by
  simp only [Network.step, Network.serverStep] at hs
  split_ifs at hs with hk
  exact hk

/-- No task panics. -/
theorem tasks_unpanicked (h : Unpanicked w)
    (hs : w.step (c.config (simulatorKme c.stack)) t a = some w') (i : ℕ) (task' : Task)
    (ht' : w'.server.tasks[i]? = some task') : task'.proto.pc ≠ .panicked := by
  have hrun := Network.server_step hs
  cases a with
  | server b =>
    rw [Network.serverActs, run_singleton] at hrun
    rcases TcpServer.step_protos hrun ht' with
      ⟨task, ht, hproto⟩ | ⟨-, -, hproto⟩ | ⟨ta, task, evs, rfl, ht, hstep⟩
    · rw [hproto]
      exact h.tasks i task ht
    · rw [hproto]
      exact ServerPc.noConfusion
    · cases Task.step_trans hstep with
      | proto hphase ha hp =>
        intro hpanic
        obtain ⟨answer, nonce, rfl, hbad⟩ := panicked_of_step hp hpanic
        have hallowed := allowsServer_of_step hs
        have hf : fetchKeyInternal c.stack.decode answer = .panicked := fetch_panicked_iff.mpr hbad
        simp only [Crypto.Lockstep.Kme.allowsServer, Setup.config, simulatorKme, hf] at hallowed
        cases hallowed
      | sendOsk hphase hpc hp =>
        intro hpanic
        obtain ⟨answer, nonce, ha, -⟩ := panicked_of_step hp hpanic
        cases ha
      | sendExit | cancel => exact h.tasks i task ht
  | connect | intrude | lose | client | cutRequests | cutAcks | worker | clientWorker =>
    rw [← Option.some.inj hrun] at ht'
    exact h.tasks i task' ht'

/-- The client does not panic. -/
theorem client_unpanicked {conn conn' : Conn} {ca : ClientProtocol.Act}
    (hs : conn.clientStep (c.config (simulatorKme c.stack)) ca = some conn') :
    conn'.client.pc ≠ .panicked := by
  unfold Conn.clientStep at hs
  split_ifs at hs with hallowed
  obtain ⟨client, hclient, hs⟩ := Option.bind_eq_some_iff.mp hs
  obtain ⟨requests, -, rfl⟩ := Option.map_eq_some_iff.mp hs
  cases ClientProtocol.step_trans hclient with
  | @fetchPanic req answer hpc hf =>
    obtain ⟨id, -, hid⟩ := (Option.any_eq_true _ _).mp hallowed
    simp only [Setup.config, Setup.ext] at hf
    simp only [Setup.config, simulatorKme, hf] at hid
    cases hid
  | readSome | readAll | readErr | fetchOk | fetchErr | wroteAck | writeErr | oskOk | oskErr =>
    exact ClientPc.noConfusion

theorem conns_unpanicked (h : Unpanicked w)
    (hs : w.step (c.config (simulatorKme c.stack)) t a = some w') :
    ∀ conn ∈ w'.conns, conn.client.pc ≠ .panicked := by
  have hset : ∀ {k : ℕ} {conn conn' : Conn}, w.conns[k]? = some conn →
      conn'.client = conn.client → ∀ x ∈ w.conns.set k conn', x.client.pc ≠ .panicked := by
    intro k conn conn' hk hclient x hx
    rcases List.mem_or_eq_of_mem_set hx with hx | rfl
    · exact h.conns x hx
    · rw [hclient]
      exact h.conns conn (List.mem_of_getElem? hk)
  cases Network.step_trans hs with
  | connect hd =>
    intro conn hconn
    rcases List.mem_append.mp hconn with hconn | hconn
    · exact h.conns conn hconn
    · rw [List.mem_singleton.mp hconn]
      exact ClientPc.noConfusion
  | client hconns hd hclient =>
    intro conn hconn
    rcases List.mem_append.mp hconn with hconn | hconn
    · exact h.conns conn (hconns ▸ List.mem_append_left _ hconn)
    · rw [List.mem_singleton.mp hconn]
      exact client_unpanicked hclient
  | cutRequests hk | cutAcks hk => exact hset hk rfl
  | proto hk ht hi hconn hio hserver =>
    refine hset hconn ?_
    obtain ⟨acks, -, rfl⟩ := Option.map_eq_some_iff.mp hio
    rfl
  | intrude | lose | accept | oskSent | own | worker | clientWorker => exact h.conns

/-- **No answer of the simulator makes a daemon panic.** -/
theorem run_unpanicked {acts : List Network.Act}
    (hrun : run (Network.step (c.config (simulatorKme c.stack)) t) Network.new acts = some w) :
    Unpanicked w :=
  run_invariant (fun h hs => ⟨tasks_unpanicked h hs, conns_unpanicked h hs⟩) unpanicked_new hrun

end Panics

/-! ### The main result -/

section Main
variable {c : Setup} {t : Timings} {s : State} {acts : List State.Act}

/-- The server fetches no id twice. -/
theorem TestbedInv.ids_nodup (h : TestbedInv c t acts s) :
    ((fetches c.ext (serverRun c acts)).map fun f => f.2.qkd.id).Nodup := by
  have hissued : (issued c.stack s.kme).Nodup := by
    have hapart := h.kme.apart.sublist (List.sublist_append_left s.kme.returned s.kme.pending)
    unfold issued
    refine List.Pairwise.map _ (fun a b hab => hab) ?_
    rw [List.pairwise_filter]
    exact hapart.imp fun hab ha hb => hab ha hb
  have hnodup := h.fetched.nodup hissued
  have hcomp : (fun f : StreamId × Fetch => keyResponse c.stack.codec f.2.qkd.id) =
      keyResponse c.stack.codec ∘ fun f => f.2.qkd.id := rfl
  rw [hcomp, ← List.map_map] at hnodup
  exact List.Nodup.of_map _ hnodup

theorem TestbedInv.server_run (h : TestbedInv c t acts s) :
    run (TcpServer.step c.ext c.server) TcpServer.new (serverRun c acts) =
      some s.network.server := by
  have hrun := Network.run_server h.network
  exact hrun

/-- **The daemons with the simulator.** In every run of the testbed with fewer than `2 ^ 64`
requests for new keys and fewer than `2 ^ 64` connections, whatever other hosts do and whoever else
uses the simulator: the keys the server takes from connections of the client are a subsequence of
the keys of the client; no daemon panics; the server passes no key on twice, unless two of the keys
it fetched are a collision of the hash function; and whenever nothing is on its way, both ends were
given the same key last. -/
theorem testbed_agreement (hc : c.Good) (hm : Mirrored c.server c.client)
    (hrun : run (State.step c t) State.new acts = some s) (hkeys : newKeys c acts < 2 ^ 64)
    (hlt : s.network.server.tasks.length < connectionIds) :
    ((s.network.server.forwarded.filter (fromClient s.network)).map fun f => f.2.key).Sublist
        s.network.clientKeys ∧
      Unpanicked s.network ∧
      ((s.network.server.forwarded.map fun f => f.2.key).Nodup ∨
        Colliding c.ext c.server (serverRun c acts)) ∧
      ∀ i task front conn, Settled s.network i task front conn →
        ∃ key, (freshCalls s.network.deadman.worker.calls).getLast? = some (setFreshOsk key) ∧
          (freshCalls s.network.clientDeadman.worker.calls).getLast? =
            some (setFreshOsk key) := by
  have h := run_testbedInv hc hrun hkeys
  have hnet := run_networkInv h.network
  have hk := simulatorKme_consistent c
  refine ⟨hnet.fromClient_sublist hm hk hlt, run_unpanicked h.network, ?_,
    fun i task front conn hs => ?_⟩
  · refine or_iff_not_imp_right.mpr fun hno => ?_
    exact forwarded_nodup h.server_run hlt (derivable_nodup h.server_run h.ids_nodup hno)
  · obtain ⟨key, hkey⟩ := Option.ne_none_iff_exists'.mp fun hnone =>
      hs.negotiated (List.getLast?_eq_none_iff.mp hnone)
    exact ⟨key, getLast?_of_suffix (server_settled hnet hs hlt) hkey,
      getLast?_of_suffix (client_settled hnet hs hm hk) hkey⟩

end Main

/-! ### A sample run -/

open Daisyway.Crypto.Lockstep (sampleExternals)

/-- Two daemons, with connections to one simulator. -/
def sampleSetup : Setup where
  stack := sampleStack
  shake256 := sampleExternals.shake256
  serverEtsi := ada
  clientEtsi := bob
  server := ⟨zeroed 32, Vector.replicate 32 2, Vector.replicate 32 3⟩
  client := ⟨zeroed 32, Vector.replicate 32 3, Vector.replicate 32 2⟩

theorem sampleSetup_good : sampleSetup.Good := ⟨sampleStack_lawful, ada_good, bob_good⟩

/-- The response of the simulator with the key number `n`. -/
def sampleResponse (n : ℕ) : Response := keyResponse sampleStack.codec (Uuid.fromU128 n)

/-- Somebody else takes the first key, and the next two are negotiated; the task of a connection
that another host opened takes one as well. -/
def sampleTestbed : List State.Act :=
  let round (n : ℕ) : List State.Act :=
    [.requestAny, .answerAny 0 1 (sampleResponse n) (zeroed 32),
      .network (.server (.task 1 (.proto (.wrote 48)))),
      .network (.client (.read (RekeyReq.new (Uuid.fromU128 n).asBytes (zeroed 32)).asBytes)),
      .requestSpecific (Uuid.fromU128 n),
      .answerSpecific 0 (Uuid.fromU128 n) (sampleResponse n), .network (.client .wroteAck),
      .network (.client (.oskSet true)),
      .network (.server (.task 1 (.proto (.read rekeyAck.dummyData)))),
      .network (.server (.task 1 .sendOsk)), .network (.server .recv),
      .network (.server .oskSent)]
  [.requestOther "/api/v1/keys/x/enc_keys".toList none, .answerOther 0, .network .intrude,
    .network .connect, .network (.server .accept), .network (.server .accept)] ++ round 2 ++
    [.requestAny, .answerAny 0 0 (sampleResponse 3) (zeroed 32),
      .network (.server (.task 1 (.proto .slept)))] ++ round 4

theorem testbed_agreement_sample :
    ∃ s, run (State.step sampleSetup sampleTimings) State.new sampleTestbed = some s ∧
      s.network.clientKeys.length = 2 ∧ s.network.server.forwarded.length = 2 ∧
      ((s.network.server.forwarded.filter (fromClient s.network)).map fun f => f.2.key).Sublist
        s.network.clientKeys ∧
      Unpanicked s.network := by
  have h : ((run (State.step sampleSetup sampleTimings) State.new sampleTestbed).map fun s =>
      (s.network.clientKeys.length, s.network.server.forwarded.length,
        s.network.server.tasks.length)) = some (2, 2, 2) := by
    decide +kernel
  have hkeys : newKeys sampleSetup sampleTestbed < 2 ^ 64 := by decide +kernel
  obtain ⟨s, hs, he⟩ := Option.map_eq_some_iff.mp h
  obtain ⟨hclient, he⟩ := Prod.mk.inj he
  obtain ⟨hserver, hlen⟩ := Prod.mk.inj he
  have hagree := testbed_agreement sampleSetup_good ⟨rfl, rfl, rfl⟩ hs hkeys
    (by rw [hlen]; decide)
  exact ⟨s, hs, hclient, hserver, hagree.1, hagree.2.1⟩

end Daisyway.Simulator.Testbed
