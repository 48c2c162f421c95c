import Daisyway.Net.Answers
import Daisyway.Net.Convergence
import Daisyway.Net.Provenance
import Daisyway.Tls

/-! # Whose keys are installed

A deployment whose daemons reach their KMEs over TLS. Who answers a request is the network's choice;
what a daemon gets is what its HTTP client makes of it (`Http`), for the URI of its request and the
TLS of its configuration.

The keys the server derives are those of its fetches (`fetches`). For the client the fetches of a
run are turned into a KME that answers with no other keys (`clientKme`), so that the invariant of
its connections says where the keys of its rounds come from. Together: whatever other hosts do, no
key reaches the broker of an end that is not derived from an answer of an authentic server or of
somebody such a server has redirected the request to, and without a CA certificate there are none
(`keys_authenticated`). -/

namespace Daisyway.Net.Trust

open Daisyway.Prim Daisyway.Etsi014 Daisyway.Tls Daisyway.Crypto.Basics Daisyway.Crypto.Protocol
open Daisyway.Crypto.Lockstep (Kme Config Conn LinkInv)
open Daisyway.Lib.Run Daisyway.Lib.Lists Daisyway.Osk.Deadman
open Daisyway.Net.Manager Daisyway.Net.Server Daisyway.Net.Deployment Daisyway.Net.Answers
open Daisyway.Net.Provenance
open Daisyway.Net.EndToEnd (freshCalls handed freshCalls_append)

/-! ### The model -/

/-- How a daemon reaches its KME. -/
structure Access where
  conn : Etsi014Connection
  tls : ClientConfig
  deriving DecidableEq

def Access.client (a : Access) : Etsi014Client := ⟨a.conn, some a.tls⟩

structure Accesses where
  server : Access
  client : Access
  deriving DecidableEq

inductive Act (χ : Type) where
  /-- A request for any key of the task `i` of the server ends. -/
  | serverFetch (i : StreamId) (x : χ) (nonce : Nonce)
  /-- A request of the client for the key with the id ends. -/
  | clientFetch (id : Uuid) (x : χ)
  /-- Another step, or a request that gets no answer. -/
  | other (a : Network.Act)
  deriving DecidableEq

section Model
variable {χ : Type} (http : Http χ) (cfg : Config) (t : Timings) (access : Accesses)

/-- The answer to `fetch_any_key` of the server. -/
def anyAnswer (x : χ) : KmeAnswer :=
  http.get access.server.tls access.server.conn.anyKeyUri x

/-- The answer to `fetch_specific_key` of the client. -/
def specificAnswer (id : Uuid) (x : χ) : KmeAnswer :=
  http.get access.client.tls (access.client.conn.specificKeyUri id) x

/-- What a daemon gets to see of a step. -/
def Act.toNetwork : Act χ → Network.Act
  | .serverFetch i x nonce => .server (.task i (.proto (.fetched (anyAnswer http access x) nonce)))
  | .clientFetch id x => .client (.fetched (specificAnswer http access id x))
  | .other a => a

/-- The client asks for the id in the request it has received, and every answer comes from a
request. -/
def enabled (w : Network) : Act χ → Bool
  | .serverFetch _ _ _ => true
  | .clientFetch id _ => clientRequested w = some id
  | .other a => unanswered a

/-- One step of the deployment. -/
def step (w : Network) (a : Act χ) : Option Network :=
  if enabled w a then w.step { cfg with kme := openKme } t (a.toNetwork http access) else none

end Model

section Runs
variable {ε χ : Type} {http : Http χ} {cfg : Config} {t : Timings} {access : Accesses}
  {w w' : Network} {a : Act χ} {acts : List (Act χ)}

theorem step_some (h : step http cfg t access w a = some w') :
    enabled w a = true ∧
      w.step { cfg with kme := openKme } t (a.toNetwork http access) = some w' := by
  unfold step at h
  split_ifs at h with he
  exact ⟨he, h⟩

theorem run_unanswered (hrun : run (step http cfg t access) Network.new acts = some w) :
    ∀ a, .other a ∈ acts → unanswered a = true := by
  refine run_invariant_history
    (I := fun acts _ => ∀ a, .other a ∈ acts → unanswered a = true)
    (fun a ha => by cases ha) ?_ hrun
  intro acts w a w' h hs b hb
  rcases List.mem_append.mp hb with hb | hb
  · exact h b hb
  · obtain rfl := List.mem_singleton.mp hb
    exact (step_some hs).1

/-- A run is a run of the deployment whose KMEs may give any answer. -/
theorem run_network (hrun : run (step http cfg t access) Network.new acts = some w) :
    run (Network.step { cfg with kme := openKme } t) Network.new
      (acts.map (Act.toNetwork http access)) = some w := by
  rw [List.map_eq_flatMap]
  refine run_project (fun w : Network => w) (fun a => [Act.toNetwork http access a]) ?_ hrun
  intro w a w' hs
  exact (run_singleton _ _).trans (step_some hs).2

theorem mem_handed {d : OskDeadman} {call : SetOsk} (h : call ∈ freshCalls d.worker.calls) :
    call ∈ handed d := by
  unfold handed
  rw [freshCalls_append, freshCalls_append]
  exact List.mem_append_left _ (List.mem_append_left _ h)

/-! ### The server -/

/-- The steps of the server in a run. -/
def serverRun (http : Http χ) (access : Accesses) (acts : List (Act χ)) : List TcpServer.Act :=
  (acts.map (Act.toNetwork http access)).flatMap Network.serverActs

/-- Every key the server fetched came in the answer to a request. -/
theorem fetches_answered (hrun : run (step http cfg t access) Network.new acts = some w)
    {i : StreamId} {f : Fetch} (hf : (i, f) ∈ fetches cfg.ext (serverRun http access acts)) :
    ∃ x, .serverFetch i x f.nonce ∈ acts ∧
      fetchKeyInternal cfg.ext.base64Decode (anyAnswer http access x) = .ok f.qkd := by
  obtain ⟨answer, hmem, hkey⟩ := mem_fetches hf
  obtain ⟨na, hna, hsa⟩ := List.mem_flatMap.mp hmem
  obtain ⟨a, ha, rfl⟩ := List.mem_map.mp hna
  cases a with
  | serverFetch j x nonce =>
    simp only [Act.toNetwork, Network.serverActs, List.mem_singleton, TcpServer.Act.task.injEq,
      TaskAct.proto.injEq, ServerProtocol.Act.fetched.injEq] at hsa
    obtain ⟨rfl, rfl, rfl⟩ := hsa
    exact ⟨x, ha, hkey⟩
  | clientFetch id x => cases hsa
  | other a =>
    -- a step without an answer fetches nothing
    have he := run_unanswered hrun a ha
    cases a with
    | server sa =>
      obtain rfl := List.mem_singleton.mp hsa
      obtain ⟨e, herr⟩ := fetch_noAnswer cfg.ext.base64Decode he
      rw [herr] at hkey
      cases hkey
    | connect | intrude | lose | client | cutRequests | cutAcks | worker | clientWorker => cases hsa

/-- The fresh keys at the broker of the server are derived from keys of answers. -/
theorem server_call (hrun : run (step http cfg t access) Network.new acts = some w)
    (hlt : w.server.tasks.length < connectionIds) {call : SetOsk}
    (hcall : call ∈ freshCalls w.deadman.worker.calls) :
    ∃ i x nonce qkd, .serverFetch i x nonce ∈ acts ∧
      fetchKeyInternal cfg.ext.base64Decode (anyAnswer http access x) = .ok qkd ∧
      call.key = deriveDaisywayKey cfg.ext.shake256 cfg.server nonce qkd := by
  have hnet := run_network hrun
  have hforwarded : call ∈ w.server.forwarded.map Prod.snd := by
    refine List.mem_of_mem_filter ((run_networkInv hnet).passed.front.subset ?_)
    exact List.mem_append_left _ (mem_handed hcall)
  have hderivable := (forwarded_derivable (Network.run_server hnet) hlt).subset hforwarded
  obtain ⟨key, hkey, rfl⟩ := List.mem_map.mp hderivable
  obtain ⟨i, -, hkey⟩ := List.mem_flatMap.mp hkey
  obtain ⟨f, hf, rfl⟩ := List.mem_map.mp hkey
  obtain ⟨e, he, rfl⟩ := List.mem_map.mp hf
  obtain ⟨x, hx, hqkd⟩ := fetches_answered hrun (List.mem_filter.mp he).1
  exact ⟨_, x, _, _, hx, hqkd, rfl⟩

/-! ### The client -/

/-- The keys the client fetched. -/
def clientFetched (http : Http χ) (decode : Base64Decode) (access : Accesses)
    (acts : List (Act χ)) : List Etsi014Key :=
  acts.flatMap fun
    | .clientFetch id x =>
      match fetchKeyInternal decode (specificAnswer http access id x) with
      | .ok key => [key]
      | _ => []
    | _ => []

theorem mem_clientFetched {decode : Base64Decode} {key : Etsi014Key} :
    key ∈ clientFetched http decode access acts ↔ ∃ id x, .clientFetch id x ∈ acts ∧
      fetchKeyInternal decode (specificAnswer http access id x) = .ok key := by
  unfold clientFetched
  rw [List.mem_flatMap]
  constructor
  · rintro ⟨a, ha, hkey⟩
    split at hkey
    · next id x =>
      split at hkey
      · next key' hx =>
        obtain rfl := List.mem_singleton.mp hkey
        exact ⟨id, x, ha, hx⟩
      · cases hkey
    · cases hkey
  · rintro ⟨id, x, ha, hx⟩
    exact ⟨_, ha, by simp [hx]⟩

/-- A KME that gives the client the keys it fetched in the run and no others. -/
def clientKme (http : Http χ) (decode : Base64Decode) (access : Accesses) (acts : List (Act χ)) :
    Kme where
  any _ := true
  specific _ answer :=
    match fetchKeyInternal decode answer with
    | .ok key => key ∈ clientFetched http decode access acts
    | _ => true

theorem clientKme_specific {decode : Base64Decode} {id : Uuid} {answer : KmeAnswer} :
    (clientKme http decode access acts).specific id answer = true ↔
      ∀ key, fetchKeyInternal decode answer = .ok key →
        key ∈ clientFetched http decode access acts := by
  unfold clientKme
  dsimp only
  cases fetchKeyInternal decode answer with
  | ok key => simp
  | err e => simp
  | panicked => simp

/-- The answers of a run are those of the KME made of its fetches. -/
theorem run_clientKme (hrun : run (step http cfg t access) Network.new acts = some w) :
    run (Network.step { cfg with kme := clientKme http cfg.ext.base64Decode access acts } t)
      Network.new (acts.map (Act.toNetwork http access)) = some w := by
  refine run_of_steps (fun na hna {w w'} hs => ?_) (run_network hrun)
  obtain ⟨a, ha, rfl⟩ := List.mem_map.mp hna
  refine step_of_allowed cfg hs ?_
  cases a with
  | serverFetch i x nonce => exact rfl
  | clientFetch id x =>
    refine fun _ _ => clientKme_specific.mpr fun key hkey => ?_
    exact mem_clientFetched.mpr ⟨id, x, ha, hkey⟩
  | other a =>
    refine allowed_of_unanswered cfg.ext.base64Decode (fun answer e herr => ⟨rfl, fun id => ?_⟩)
      (run_unanswered hrun a ha)
    refine clientKme_specific.mpr fun key hkey => ?_
    rw [herr] at hkey
    cases hkey

/-- The fresh keys at the broker of the client are derived from keys of answers. -/
theorem client_call (hrun : run (step http cfg t access) Network.new acts = some w) {call : SetOsk}
    (hcall : call ∈ freshCalls w.clientDeadman.worker.calls) :
    ∃ id x nonce qkd, .clientFetch id x ∈ acts ∧
      fetchKeyInternal cfg.ext.base64Decode (specificAnswer http access id x) = .ok qkd ∧
      call.key = deriveDaisywayKey cfg.ext.shake256 cfg.client nonce qkd := by
  have hinv := run_networkInv (run_clientKme hrun)
  have hkey : call.key ∈ w.clientKeys := by
    refine hinv.client.front.subset (List.mem_append_left _ ?_)
    exact List.mem_map_of_mem (mem_handed hcall)
  rw [hinv.keys] at hkey
  obtain ⟨keys, hkeys, hkey⟩ := List.mem_flatten.mp hkey
  obtain ⟨conn, hconn, rfl⟩ := List.mem_map.mp hkeys
  obtain ⟨p, hlink⟩ := hinv.linked.conn hconn
  rw [hlink.client.keys_eq] at hkey
  obtain ⟨r, hr, hkey⟩ := List.mem_map.mp hkey
  obtain ⟨answer, hallowed, hanswer⟩ := hlink.client.rounds_ok r hr
  obtain ⟨id, x, hx, hqkd⟩ := mem_clientFetched.mp (clientKme_specific.mp hallowed r.qkd hanswer)
  exact ⟨id, x, r.req.nonce, r.qkd, hx, hqkd, hkey.symm⟩

/-! ### Authentic keys -/

theorem fetch_ne_sendFailed {decode : Base64Decode} {answer : KmeAnswer} {key : Etsi014Key}
    (h : fetchKeyInternal decode answer = .ok key) : answer ≠ .sendFailed := by
  rintro rfl
  cases h

/-- A daemon that was set up from a configuration with an `https` URL. -/
structure SetUp (host : TlsHost ε) (config : Etsi014Config) (access : Access) : Prop where
  fromConfig : fromConfig host config = .ok access.client
  https : isHttps config.url = true

theorem SetUp.https_url {host : TlsHost ε} {config : Etsi014Config} {access : Access}
    (h : SetUp host config access) : isHttps access.conn.url = true := by
  have hconn : access.conn = ⟨config.url, config.remoteSaeId⟩ := (fromConfig_ok h.fromConfig).1
  rw [hconn]
  exact h.https

/-- A key comes in an answer of an authentic server, or of somebody such a server has redirected the
request to. -/
theorem SetUp.answeredBy {W : WebPki ε} {pki : Pki} {host : TlsHost ε} {config : Etsi014Config}
    {access : Access} (h : SetUp host config access) (hhttp : http.Lawful W) (hW : W.Lawful pki)
    {uri : Text} (huri : isHttps uri = true) {x : χ} {decode : Base64Decode} {qkd : Etsi014Key}
    (hqkd : fetchKeyInternal decode (http.get access.tls uri x) = .ok qkd) :
    AnsweredBy W pki host config (http.hops access.tls uri x) :=
  answeredBy_of_get hhttp hW (fromConfig_ok h.fromConfig).2 huri (fetch_ne_sendFailed hqkd)

variable {W : WebPki ε} {pki : Pki} {host host' : TlsHost ε} {server client : Etsi014Config}

/-- A fresh key at the broker of the server, with who has answered the request for it. -/
theorem server_answered (hhttp : http.Lawful W) (hW : W.Lawful pki)
    (hs : SetUp host server access.server)
    (hrun : run (step http cfg t access) Network.new acts = some w)
    (hlt : w.server.tasks.length < connectionIds) {call : SetOsk}
    (hcall : call ∈ freshCalls w.deadman.worker.calls) :
    ∃ i x nonce qkd, .serverFetch i x nonce ∈ acts ∧
      fetchKeyInternal cfg.ext.base64Decode (anyAnswer http access x) = .ok qkd ∧
      AnsweredBy W pki host server
        (http.hops access.server.tls access.server.conn.anyKeyUri x) ∧
      call.key = deriveDaisywayKey cfg.ext.shake256 cfg.server nonce qkd := by
  obtain ⟨i, x, nonce, qkd, hx, hqkd, hkey⟩ := server_call hrun hlt hcall
  have hby := hs.answeredBy hhttp hW (isHttps_anyKeyUri hs.https_url) hqkd
  exact ⟨i, x, nonce, qkd, hx, hqkd, hby, hkey⟩

theorem client_answered (hhttp : http.Lawful W) (hW : W.Lawful pki)
    (hc : SetUp host' client access.client)
    (hrun : run (step http cfg t access) Network.new acts = some w) {call : SetOsk}
    (hcall : call ∈ freshCalls w.clientDeadman.worker.calls) :
    ∃ id x nonce qkd, .clientFetch id x ∈ acts ∧
      fetchKeyInternal cfg.ext.base64Decode (specificAnswer http access id x) = .ok qkd ∧
      AnsweredBy W pki host' client
        (http.hops access.client.tls (access.client.conn.specificKeyUri id) x) ∧
      call.key = deriveDaisywayKey cfg.ext.shake256 cfg.client nonce qkd := by
  obtain ⟨id, x, nonce, qkd, hx, hqkd, hkey⟩ := client_call hrun hcall
  have hby := hc.answeredBy hhttp hW (isHttps_specificKeyUri hc.https_url id) hqkd
  exact ⟨id, x, nonce, qkd, hx, hqkd, hby, hkey⟩

/-- **No key without an authentic KME.** Two daemons reach their KMEs at `https` URLs, with the TLS
set up from their configurations. In every run with fewer than `2 ^ 64` connections, whoever answers
their requests and whatever other hosts do: each fresh key at the broker of an end is derived from a
key in the answer to a request of this end, and the answer is that of a server whose certificate is
signed by the CA that is configured, or of somebody without TLS to whom such a server has redirected
the request. So if no CA certificate is configured, there is no such key. -/
theorem keys_authenticated (hhttp : http.Lawful W) (hW : W.Lawful pki)
    (hs : SetUp host server access.server) (hc : SetUp host' client access.client)
    (hrun : run (step http cfg t access) Network.new acts = some w)
    (hlt : w.server.tasks.length < connectionIds) :
    (∀ call ∈ freshCalls w.deadman.worker.calls, ∃ i x nonce qkd,
      .serverFetch i x nonce ∈ acts ∧
      fetchKeyInternal cfg.ext.base64Decode (anyAnswer http access x) = .ok qkd ∧
      AnsweredBy W pki host server
        (http.hops access.server.tls access.server.conn.anyKeyUri x) ∧
      call.key = deriveDaisywayKey cfg.ext.shake256 cfg.server nonce qkd) ∧
    (∀ call ∈ freshCalls w.clientDeadman.worker.calls, ∃ id x nonce qkd,
      .clientFetch id x ∈ acts ∧
      fetchKeyInternal cfg.ext.base64Decode (specificAnswer http access id x) = .ok qkd ∧
      AnsweredBy W pki host' client
        (http.hops access.client.tls (access.client.conn.specificKeyUri id) x) ∧
      call.key = deriveDaisywayKey cfg.ext.shake256 cfg.client nonce qkd) ∧
    (server.tlsCacert = none → freshCalls w.deadman.worker.calls = []) ∧
    (client.tlsCacert = none → freshCalls w.clientDeadman.worker.calls = []) := by
  refine ⟨fun call hcall => server_answered hhttp hW hs hrun hlt hcall,
    fun call hcall => client_answered hhttp hW hc hrun hcall, fun hnone => ?_, fun hnone => ?_⟩
  · refine List.eq_nil_iff_forall_not_mem.mpr fun call hcall => ?_
    obtain ⟨_, _, _, _, -, -, hby, -⟩ := server_answered hhttp hW hs hrun hlt hcall
    exact hby.tlsCacert_ne_none hnone
  · refine List.eq_nil_iff_forall_not_mem.mpr fun call hcall => ?_
    obtain ⟨_, _, _, _, -, -, hby, -⟩ := client_answered hhttp hW hc hrun hcall
    exact hby.tlsCacert_ne_none hnone

end Runs

/-! ### A sample run -/

open Daisyway.Crypto.Lockstep (sampleConfig sampleExternals sampleKey sampleAnswer)
open Daisyway.Net.Convergence (sampleConvergence)

/-- The certificates of the sample: `[1]` is the CA, and it has signed `[2]` for `kme`. -/
def samplePki : Pki where
  signedBy root p := root = [1] ∧ p.endEntity = [2]
  named p := p.serverName = "kme".toList

def sampleWebPki : WebPki Unit where
  verifyServerCert roots p :=
    if [1] ∈ roots ∧ p.endEntity = [2] then
      if p.serverName = "kme".toList then .ok ()
      else .error (.invalidCertificate .notValidForName)
    else .error (.invalidCertificate (.other ()))
  verifyTls12Signature _ _ _ := .error (.other ())
  verifyTls13Signature message cert dss :=
    if dss = cert ++ message then .ok () else .error (.other ())

theorem sampleWebPki_lawful : sampleWebPki.Lawful samplePki where
  accepted := by
    intro roots p h
    simp only [sampleWebPki] at h
    split_ifs at h with hroot hname
    exact ⟨⟨[1], hroot.1, by simp [samplePki, hroot.2]⟩, by simp [samplePki, hname]⟩
  otherName := by
    intro roots p e h he
    simp only [sampleWebPki] at h
    split_ifs at h with hroot hname
    · exact ⟨[1], hroot.1, by simp [samplePki, hroot.2]⟩
    · cases h
      cases he

/-- The first hop is one over TLS. -/
def startsWithTls : List Hop → Bool
  | .tls _ :: _ => true
  | _ => false

/-- The server of the hop passes the handshake. -/
def passes (tls : ClientConfig) : Hop → Bool
  | .plain => true
  | .tls p => (tls.handshake sampleWebPki p).isOk

/-- A client for requests with these hops and this answer. -/
def sampleHttp : Http (List Hop × KmeAnswer) where
  get tls uri x :=
    if (isHttps uri → startsWithTls x.1) ∧ x.1.all (passes tls) then x.2 else .sendFailed
  hops _ _ x := x.1

theorem sampleHttp_lawful : sampleHttp.Lawful sampleWebPki where
  secured := by
    intro tls uri x h huri
    simp only [sampleHttp] at h ⊢
    split_ifs at h with hguard
    · have hstart := hguard.1 huri
      unfold startsWithTls at hstart
      split at hstart
      · next p rest hx => exact ⟨p, rest, hx⟩
      · cases hstart
    · exact absurd rfl h
  verified := by
    intro tls uri x p h hp
    simp only [sampleHttp] at h hp
    split_ifs at h with hguard
    · have hpass : (tls.handshake sampleWebPki p).isOk = true :=
        List.all_eq_true.mp hguard.2 _ hp
      cases hs : tls.handshake sampleWebPki p with
      | error e =>
        rw [hs] at hpass
        cases hpass
      | ok u => rfl
    · exact absurd rfl h

def sampleTlsHost : TlsHost Unit where
  providerInstalled := false
  certFromPemFile path := if path = [99, 97] then .ok [1] else .error ()
  keyFromPemFile _ := .error ()
  addRoot _ := .ok ()
  clientAuthCert _ _ := .ok ()
  buildVerifier roots := if roots = [] then .error () else .ok ()
  buildClient := .ok ()

/-- The KME is at an address that is not in its certificate. -/
def sampleEtsi : Etsi014Config where
  url := "https://localhost:8443".toList
  remoteSaeId := "SAE_002".toList
  tlsCacert := some [99, 97]
  clientAuth := none
  dangerAllowInsecureNoServerNameCertificates := true

def sampleAccess : Access :=
  ⟨⟨sampleEtsi.url, sampleEtsi.remoteSaeId⟩, ⟨none, .noServerName ⟨⟨[[1]]⟩⟩⟩⟩

def sampleAccesses : Accesses := ⟨sampleAccess, sampleAccess⟩

theorem sampleAccess_setUp : SetUp sampleTlsHost sampleEtsi sampleAccess where
  fromConfig := rfl
  https := by decide

/-- A server with the certificate `cert`. -/
def samplePresented (cert : Certificate) : Presented :=
  ⟨cert, [], "localhost".toList, [], 0, true, [7], cert ++ [7]⟩

/-- The answers of a run come from the KME; the client is redirected to it by another server of its
operator. -/
def overTls : Network.Act → Act (List Hop × KmeAnswer)
  | .server (.task i (.proto (.fetched answer nonce))) =>
    .serverFetch i ([.tls (samplePresented [2])], answer) nonce
  | .client (.fetched answer) =>
    .clientFetch (sampleKey 1).id
      ([.tls (samplePresented [2]), .tls (samplePresented [2])], answer)
  | a => .other a

/-- Both ends install keys of the KME; then somebody else answers the server with a key. -/
def sampleTrust : List (Act (List Hop × KmeAnswer)) :=
  sampleConvergence.map overTls ++
    [.other .intrude, .other (.server .accept),
      .serverFetch 2 ([.tls (samplePresented [3])], sampleAnswer (sampleKey 1)) (zeroed 32)]

theorem keys_authenticated_sample :
    ∃ w, run (step sampleHttp (sampleConfig (sampleKey 1) (sampleKey 1)) sampleTimings
        sampleAccesses) Network.new sampleTrust = some w ∧
      (freshCalls w.deadman.worker.calls).length = 2 ∧
      (freshCalls w.clientDeadman.worker.calls).length = 1 ∧
      (w.server.tasks.map fun task => task.proto.pc)[2]? = some (.failed (.fetch .send)) ∧
      ∀ call ∈ freshCalls w.clientDeadman.worker.calls, ∃ id x nonce qkd,
        .clientFetch id x ∈ sampleTrust ∧
        fetchKeyInternal sampleExternals.base64Decode
          (specificAnswer sampleHttp sampleAccesses id x) = .ok qkd ∧
        AnsweredBy sampleWebPki samplePki sampleTlsHost sampleEtsi x.1 ∧
        call.key = deriveDaisywayKey sampleExternals.shake256
          (sampleConfig (sampleKey 1) (sampleKey 1)).client nonce qkd := by
  have h : ((run (step sampleHttp (sampleConfig (sampleKey 1) (sampleKey 1)) sampleTimings
      sampleAccesses) Network.new sampleTrust).map fun w =>
        ((freshCalls w.deadman.worker.calls).length,
          (freshCalls w.clientDeadman.worker.calls).length, w.server.tasks.length,
          (w.server.tasks.map fun task => task.proto.pc)[2]?)) =
      some (2, 1, 3, some (.failed (.fetch .send))) := by
    decide +kernel
  obtain ⟨w, hw, he⟩ := Option.map_eq_some_iff.mp h
  simp only [Prod.mk.injEq] at he
  obtain ⟨hserver, hclient, hlen, hpc⟩ := he
  refine ⟨w, hw, hserver, hclient, hpc, (keys_authenticated sampleHttp_lawful sampleWebPki_lawful
    sampleAccess_setUp sampleAccess_setUp hw ?_).2.1⟩
  rw [hlen]
  decide

end Daisyway.Net.Trust
