import Daisyway.Etsi014

/-! # TLS towards the KME

`Etsi014Connection::from_config` sets up the HTTP client: the certificate of the KME is checked
against the configured CA certificate and no other, and with
`danger_allow_insecure_no_server_name_certificates` it may have been issued for another name
(`NoServerNameVerification`). The verification of certificates itself is that of `rustls`; `WebPki`
holds the functions used of it, and `Pki` says what they are for. The HTTP client is a parameter too
(`Http`).

A server that gets past the verifier is `Authentic`: the CA has signed its certificate and it has
the key of it, whichever of the two verifiers is in use (`handshake_authentic`). In particular there
is no such server if no CA certificate is configured: the store of root certificates is then empty.
The client follows redirects, also to places without TLS, so an answer to a request over TLS comes
from an authentic server or from where one has sent the request (`answeredBy_of_get`). -/

namespace Daisyway.Tls

open Daisyway.Prim Daisyway.Etsi014

/-! ### Verification of certificates -/

/-- A certificate in DER. -/
abbrev Certificate := Bytes

/-- `rustls::CertificateError`. -/
inductive CertificateError (ε : Type) where
  | notValidForName
  | notValidForNameContext (expected : Text) (presented : List Text)
  /-- An unknown issuer, an expired or revoked certificate, and so on. -/
  | other (e : ε)

/-- `rustls::Error`. -/
inductive TlsError (ε : Type) where
  | invalidCertificate (e : CertificateError ε)
  | other (e : ε)

/-- The certificate is for another name. -/
def CertificateError.isName {ε : Type} : CertificateError ε → Bool
  | .notValidForName | .notValidForNameContext _ _ => true
  | .other _ => false

/-- What a server presents in a handshake, the name it was reached by, and the time. -/
structure Presented where
  endEntity : Certificate
  intermediates : List Certificate
  serverName : Text
  ocsp : Bytes
  now : ℕ
  /-- Whether TLS 1.3 is spoken, or TLS 1.2. -/
  tls13 : Bool
  /-- What the server has to sign, and its signature. -/
  message : Bytes
  dss : Bytes
  deriving DecidableEq

/-- The third-party functions on certificates; the first is `WebPkiServerVerifier`, for the given
roots. -/
structure WebPki (ε : Type) where
  verifyServerCert : List Certificate → Presented → Except (TlsError ε) Unit
  verifyTls12Signature : (message : Bytes) → Certificate → (dss : Bytes) → Except (TlsError ε) Unit
  verifyTls13Signature : (message : Bytes) → Certificate → (dss : Bytes) → Except (TlsError ε) Unit

/-- What is true of certificates. -/
structure Pki where
  /-- A chain of valid certificates leads from the one presented to the root. -/
  signedBy : Certificate → Presented → Bool
  /-- The certificate presented is for the name of the server. -/
  named : Presented → Bool

/-- What a verification of `rustls` means: an accepted certificate is for the name of the server and
chains to one of the roots. The name is looked at last, so a certificate for another name chains to
one of the roots too. -/
structure WebPki.Lawful {ε : Type} (W : WebPki ε) (pki : Pki) : Prop where
  accepted : ∀ {roots : List Certificate} {p : Presented}, W.verifyServerCert roots p = .ok () →
    (∃ root ∈ roots, pki.signedBy root p = true) ∧ pki.named p = true
  otherName : ∀ {roots : List Certificate} {p : Presented} {e : CertificateError ε},
    W.verifyServerCert roots p = .error (.invalidCertificate e) → e.isName = true →
      ∃ root ∈ roots, pki.signedBy root p = true

/-- `WebPkiServerVerifier`. -/
structure WebPkiServerVerifier where
  roots : List Certificate
  deriving DecidableEq

structure NoServerNameVerification where
  inner : WebPkiServerVerifier
  deriving DecidableEq

/-- The verifier of a client: the one it has by default, or the one that was set. -/
inductive ServerCertVerifier where
  | webPki (v : WebPkiServerVerifier)
  | noServerName (v : NoServerNameVerification)
  deriving DecidableEq

section Verify
variable {ε : Type} (W : WebPki ε)

def NoServerNameVerification.verifyServerCert (v : NoServerNameVerification) (p : Presented) :
    Except (TlsError ε) Unit :=
  match W.verifyServerCert v.inner.roots p with
  | .ok () => .ok ()
  | .error (.invalidCertificate certError) =>
    match certError with
    | .notValidForName => .ok ()
    | .notValidForNameContext _ _ => .ok ()
    | e => .error (.invalidCertificate e)
  | .error e => .error e

def ServerCertVerifier.verifyServerCert (v : ServerCertVerifier) (p : Presented) :
    Except (TlsError ε) Unit :=
  match v with
  | .webPki v => W.verifyServerCert v.roots p
  | .noServerName v => v.verifyServerCert W p

/-- `verify_tls12_signature` and `verify_tls13_signature`, which are the same for both verifiers. -/
def verifySignature (p : Presented) : Except (TlsError ε) Unit :=
  if p.tls13 then W.verifyTls13Signature p.message p.endEntity p.dss
  else W.verifyTls12Signature p.message p.endEntity p.dss

/-- The roots a verifier works with. -/
def ServerCertVerifier.roots : ServerCertVerifier → List Certificate
  | .webPki v => v.roots
  | .noServerName v => v.inner.roots

variable {W} {pki : Pki} {p : Presented}

/-- The verifier without names accepts what the other accepts or refuses for its name only. -/
theorem NoServerNameVerification.accepts_cases {v : NoServerNameVerification}
    (h : v.verifyServerCert W p = .ok ()) :
    W.verifyServerCert v.inner.roots p = .ok () ∨
      ∃ e, W.verifyServerCert v.inner.roots p = .error (.invalidCertificate e) ∧
        e.isName = true := by
  unfold verifyServerCert at h
  split at h
  · next hok => exact Or.inl hok
  · next e he =>
    refine Or.inr ⟨e, he, ?_⟩
    cases e with
    | notValidForName | notValidForNameContext => rfl
    | other e => cases h
  · cases h

/-- An accepted certificate chains to one of the roots; the default verifier looks at the name. -/
theorem accepts_signed (hW : W.Lawful pki) {v : ServerCertVerifier}
    (h : v.verifyServerCert W p = .ok ()) :
    (∃ root ∈ v.roots, pki.signedBy root p = true) ∧
      ((∃ v', v = .webPki v') → pki.named p = true) := by
  cases v with
  | webPki v =>
    obtain ⟨hsigned, hnamed⟩ := hW.accepted h
    exact ⟨hsigned, fun _ => hnamed⟩
  | noServerName v =>
    refine ⟨?_, fun ⟨v', hv⟩ => by cases hv⟩
    rcases v.accepts_cases h with hok | ⟨e, he, hname⟩
    · exact (hW.accepted hok).1
    · exact hW.otherName he hname

end Verify

/-! ### The configuration -/

structure ClientAuth where
  tlsCert : Bytes
  tlsKey : Bytes
  deriving DecidableEq

/-- `Etsi014Config`, without the interval. -/
structure Etsi014Config where
  url : Text
  remoteSaeId : Text
  tlsCacert : Option Bytes
  clientAuth : Option ClientAuth
  dangerAllowInsecureNoServerNameCertificates : Bool
  deriving DecidableEq

/-- The files of the host, and what `rustls` and the HTTP client say to what is in them. -/
structure TlsHost (ε : Type) where
  /-- A crypto provider is installed in the process already. -/
  providerInstalled : Bool
  certFromPemFile : Bytes → Except ε Certificate
  keyFromPemFile : Bytes → Except ε Bytes
  /-- `RootCertStore::add`. -/
  addRoot : Certificate → Except ε Unit
  /-- `with_client_auth_cert`. -/
  clientAuthCert : Certificate → Bytes → Except ε Unit
  /-- `WebPkiServerVerifier::builder(roots).build()`. -/
  buildVerifier : List Certificate → Except ε Unit
  buildClient : Except ε Unit

inductive TlsSetupError (ε : Type) where
  /-- Failed to read TLS CA certificate from file. -/
  | cacert (path : Bytes) (e : ε)
  /-- Failed to add TLS CA certificate to RootCertStore. -/
  | addCacert (e : ε)
  /-- Failed to read TLS client certificate from file. -/
  | clientCert (path : Bytes) (e : ε)
  /-- Failed to read TLS client key from file. -/
  | clientKey (path : Bytes) (e : ε)
  /-- The client certificate and the key do not go together. -/
  | clientAuth (e : ε)
  /-- There is no verifier for the roots. -/
  | verifier (e : ε)
  /-- The HTTP client could not be built. -/
  | client (e : ε)

/-- `rustls::ClientConfig`. -/
structure ClientConfig where
  clientAuth : Option (Certificate × Bytes)
  verifier : ServerCertVerifier
  deriving DecidableEq

/-- `Etsi014Connection` with the TLS configuration of its client; `none` is that of the library. -/
structure Etsi014Client where
  conn : Etsi014Connection
  tls : Option ClientConfig
  deriving DecidableEq

section Configure
variable {ε : Type} (host : TlsHost ε)

def NoServerNameVerification.fromRoots (roots : List Certificate) :
    Outcome (TlsSetupError ε) NoServerNameVerification := do
  Outcome.ofExcept .verifier (host.buildVerifier roots)
  .ok ⟨⟨roots⟩⟩

/-- The store of root certificates: the configured CA certificate, if there is one. -/
def tlsRoots (tlsCacert : Option Bytes) : Outcome (TlsSetupError ε) (List Certificate) :=
  match tlsCacert with
  | none => .ok []
  | some path => do
    let cacert ← Outcome.ofExcept (.cacert path) (host.certFromPemFile path)
    Outcome.ofExcept .addCacert (host.addRoot cacert)
    .ok [cacert]

/-- The certificate and the key the client authenticates with, if they are configured. -/
def tlsClientAuth (clientAuth : Option ClientAuth) :
    Outcome (TlsSetupError ε) (Option (Certificate × Bytes)) :=
  match clientAuth with
  | none => .ok none
  | some auth => do
    let cert ← Outcome.ofExcept (.clientCert auth.tlsCert) (host.certFromPemFile auth.tlsCert)
    let key ← Outcome.ofExcept (.clientKey auth.tlsKey) (host.keyFromPemFile auth.tlsKey)
    Outcome.ofExcept .clientAuth (host.clientAuthCert cert key)
    .ok (some (cert, key))

def configureRustls (config : Etsi014Config) :
    Outcome (TlsSetupError ε) (Option ClientConfig) := do
  -- `install_default().expect(..)`
  if host.providerInstalled then .panicked
  else
    let roots ← tlsRoots host config.tlsCacert
    let clientAuth ← tlsClientAuth host config.clientAuth
    if config.dangerAllowInsecureNoServerNameCertificates then
      let verifier ← NoServerNameVerification.fromRoots host roots
      .ok (some ⟨clientAuth, .noServerName verifier⟩)
    else .ok (some ⟨clientAuth, .webPki ⟨roots⟩⟩)

/-- `Etsi014Connection::from_config`. -/
def fromConfig (config : Etsi014Config) : Outcome (TlsSetupError ε) Etsi014Client := do
  let tls ← configureRustls host config
  Outcome.ofExcept .client host.buildClient
  .ok ⟨⟨config.url, config.remoteSaeId⟩, tls⟩

variable {host} {config : Etsi014Config}

/-- The roots are the configured CA certificate. -/
theorem tlsRoots_ok {tlsCacert : Option Bytes} {roots : List Certificate}
    (h : tlsRoots host tlsCacert = .ok roots) :
    ∀ root ∈ roots, ∃ path, tlsCacert = some path ∧ host.certFromPemFile path = .ok root := by
  unfold tlsRoots at h
  cases tlsCacert with
  | none =>
    obtain rfl := Outcome.ok.inj h
    intro root hroot
    cases hroot
  | some path =>
    obtain ⟨cacert, hread, h⟩ := Outcome.bind_eq_ok.mp h
    obtain ⟨_, -, h⟩ := Outcome.bind_eq_ok.mp h
    obtain rfl := Outcome.ok.inj h
    intro root hroot
    obtain rfl := List.mem_singleton.mp hroot
    exact ⟨path, rfl, Outcome.ofExcept_eq_ok.mp hread⟩

/-- What a configuration ends with: a verifier for the configured CA, and the one that looks at
names unless that is switched off. -/
theorem configureRustls_ok {tls : Option ClientConfig}
    (h : configureRustls host config = .ok tls) :
    ∃ tls', tls = some tls' ∧ tlsRoots host config.tlsCacert = .ok tls'.verifier.roots ∧
      (config.dangerAllowInsecureNoServerNameCertificates = false →
        ∃ v, tls'.verifier = .webPki v) := by
  unfold configureRustls at h
  by_cases hprovider : host.providerInstalled = true
  · rw [if_pos hprovider] at h
    cases h
  rw [if_neg hprovider] at h
  obtain ⟨roots, hroots, h⟩ := Outcome.bind_eq_ok.mp h
  obtain ⟨clientAuth, -, h⟩ := Outcome.bind_eq_ok.mp h
  by_cases hdanger : config.dangerAllowInsecureNoServerNameCertificates = true
  · rw [if_pos hdanger] at h
    obtain ⟨verifier, hverifier, h⟩ := Outcome.bind_eq_ok.mp h
    obtain ⟨_, -, hverifier⟩ := Outcome.bind_eq_ok.mp hverifier
    obtain rfl := Outcome.ok.inj hverifier
    obtain rfl := Outcome.ok.inj h
    exact ⟨_, rfl, hroots, fun hno => absurd hdanger (by simp [hno])⟩
  · rw [if_neg hdanger] at h
    obtain rfl := Outcome.ok.inj h
    exact ⟨_, rfl, hroots, fun _ => ⟨_, rfl⟩⟩

theorem fromConfig_ok {client : Etsi014Client} (h : fromConfig host config = .ok client) :
    client.conn = ⟨config.url, config.remoteSaeId⟩ ∧
      configureRustls host config = .ok client.tls := by
  obtain ⟨tls, htls, h⟩ := Outcome.bind_eq_ok.mp h
  obtain ⟨_, -, h⟩ := Outcome.bind_eq_ok.mp h
  obtain rfl := Outcome.ok.inj h
  exact ⟨rfl, htls⟩

end Configure

/-! ### Requests over TLS -/

/-- The URL is one of HTTP over TLS. -/
def isHttps (url : Text) : Bool := "https://".toList.isPrefixOf url

theorem isHttps_append {url : Text} (h : isHttps url = true) (rest : Text) :
    isHttps (url ++ rest) = true := by
  unfold isHttps at h ⊢
  rw [List.isPrefixOf_iff_prefix] at h ⊢
  exact h.trans (List.prefix_append _ _)

theorem isHttps_anyKeyUri {conn : Etsi014Connection} (h : isHttps conn.url = true) :
    isHttps conn.anyKeyUri = true := by
  unfold Etsi014Connection.anyKeyUri
  simp only [List.append_assoc]
  exact isHttps_append h _

theorem isHttps_specificKeyUri {conn : Etsi014Connection} (h : isHttps conn.url = true)
    (id : Uuid) : isHttps (conn.specificKeyUri id) = true := by
  unfold Etsi014Connection.specificKeyUri
  simp only [List.append_assoc]
  exact isHttps_append h _

/-- One hop of a request. What is presented is what was when the connection was set up, or the
session it resumes. -/
inductive Hop where
  | plain
  | tls (p : Presented)
  deriving DecidableEq

/-- The HTTP client, with what happens around it in the course of one request, `χ`. -/
structure Http (χ : Type) where
  /-- What comes of `get(uri).send()`. -/
  get : ClientConfig → Text → χ → KmeAnswer
  /-- Where the request was sent: the first hop is the URI, each later one the location the hop
  before it has redirected it to, and the last one has answered. -/
  hops : ClientConfig → Text → χ → List Hop

section Http
variable {ε χ : Type} (W : WebPki ε)

/-- The part of a handshake that authenticates the server. -/
def ClientConfig.handshake (tls : ClientConfig) (p : Presented) : Except (TlsError ε) Unit := do
  tls.verifier.verifyServerCert W p
  verifySignature W p

/-- What the HTTP client does for a request that does not fail. -/
structure Http.Lawful (http : Http χ) : Prop where
  /-- It sends a request to an `https` URI over TLS. -/
  secured : ∀ tls uri x, http.get tls uri x ≠ .sendFailed → isHttps uri = true →
    ∃ p rest, http.hops tls uri x = .tls p :: rest
  /-- It has authenticated the server of every hop over TLS, with the verifier it was given. -/
  verified : ∀ tls uri x p, http.get tls uri x ≠ .sendFailed → .tls p ∈ http.hops tls uri x →
    tls.handshake W p = .ok ()

/-- The server has the key of a certificate that the configured CA has signed; it is for the name of
the server unless that is switched off. -/
structure Authentic (pki : Pki) (host : TlsHost ε) (config : Etsi014Config) (p : Presented) :
    Prop where
  signed : ∃ path cacert, config.tlsCacert = some path ∧
    host.certFromPemFile path = .ok cacert ∧ pki.signedBy cacert p = true
  named : config.dangerAllowInsecureNoServerNameCertificates = false → pki.named p = true
  key : verifySignature W p = .ok ()

/-- Who has answered a request. -/
inductive AnsweredBy (pki : Pki) (host : TlsHost ε) (config : Etsi014Config) (hops : List Hop) :
    Prop
  /-- An authentic server. -/
  | server {p : Presented} (hlast : hops.getLast? = some (.tls p))
      (hp : Authentic W pki host config p)
  /-- Somebody without TLS, after an authentic server has redirected the request to a place without
  TLS. -/
  | redirected {p : Presented} (hlast : hops.getLast? = some .plain)
      (hturn : [.tls p, .plain] <:+: hops) (hp : Authentic W pki host config p)

variable {W} {pki : Pki} {host : TlsHost ε} {config : Etsi014Config} {tls : ClientConfig}

/-- **Who gets past the verifier is authentic.** -/
theorem handshake_authentic (hW : W.Lawful pki) (hc : configureRustls host config = .ok (some tls))
    {p : Presented} (h : tls.handshake W p = .ok ()) : Authentic W pki host config p := by
  obtain ⟨tls', htls, hroots, hnames⟩ := configureRustls_ok hc
  obtain rfl := Option.some.inj htls
  unfold ClientConfig.handshake at h
  cases hv : tls.verifier.verifyServerCert W p with
  | error e =>
    rw [hv] at h
    cases h
  | ok u =>
    rw [hv] at h
    obtain ⟨⟨root, hroot, hsigned⟩, hnamed⟩ := accepts_signed hW hv
    obtain ⟨path, hpath, hread⟩ := tlsRoots_ok hroots root hroot
    exact ⟨⟨path, root, hpath, hread, hsigned⟩, fun hno => hnamed (hnames hno), h⟩

/-- Hops that begin with TLS and end without it turn from one to the other somewhere. -/
theorem exists_turn : ∀ {p : Presented} {rest : List Hop},
    (.tls p :: rest).getLast? = some .plain → ∃ p', [.tls p', .plain] <:+: .tls p :: rest
  | p, [], h => by cases h
  | p, .plain :: rest, _ => ⟨p, [], rest, rfl⟩
  | p, .tls p1 :: rest, h => by
    have hlast : (.tls p1 :: rest).getLast? = some Hop.plain := by simpa using h
    obtain ⟨p', hturn⟩ := exists_turn hlast
    exact ⟨p', hturn.trans (List.suffix_cons _ _).isInfix⟩

/-- **Who has answered**, where a request to an `https` URI has not failed. -/
theorem answeredBy_of_get {http : Http χ} (hhttp : http.Lawful W) (hW : W.Lawful pki)
    (hc : configureRustls host config = .ok (some tls)) {uri : Text} {x : χ}
    (huri : isHttps uri = true) (h : http.get tls uri x ≠ .sendFailed) :
    AnsweredBy W pki host config (http.hops tls uri x) := by
  have hauth : ∀ {p : Presented}, .tls p ∈ http.hops tls uri x → Authentic W pki host config p :=
    fun hp => handshake_authentic hW hc (hhttp.verified tls uri x _ h hp)
  obtain ⟨p, rest, hhops⟩ := hhttp.secured tls uri x h huri
  cases hlast : (http.hops tls uri x).getLast? with
  | none =>
    rw [hhops] at hlast
    cases List.getLast?_eq_none_iff.mp hlast
  | some hop =>
    cases hop with
    | tls p' => exact .server hlast (hauth (List.mem_of_getLast? hlast))
    | plain =>
      have hends : (.tls p :: rest).getLast? = some .plain := by
        rw [← hhops]
        exact hlast
      obtain ⟨p', hturn⟩ := exists_turn hends
      rw [← hhops] at hturn
      exact .redirected hlast hturn (hauth (hturn.subset List.mem_cons_self))

/-- Without a CA certificate nobody answers. -/
theorem AnsweredBy.tlsCacert_ne_none {hops : List Hop} (h : AnsweredBy W pki host config hops) :
    config.tlsCacert ≠ none := by
  cases h with
  | server _ hp | redirected _ _ hp =>
    obtain ⟨path, cacert, hpath, -, -⟩ := hp.signed
    rw [hpath]
    exact Option.some_ne_none path

end Http

end Daisyway.Tls
