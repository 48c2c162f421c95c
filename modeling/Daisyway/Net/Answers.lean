import Daisyway.Net.Deployment

/-! # Which answers the KMEs give

The steps of a deployment are guarded by the answers its KMEs may give (`Kme`), and only the steps
that bring an answer are. So a deployment whose KMEs may give any answer can be run together with
whatever does give the answers, and each of its steps is a step of the deployment whose KMEs may
give no others than these (`step_of_allowed`). -/

namespace Daisyway.Net.Answers

open Daisyway.Prim Daisyway.Etsi014 Daisyway.Crypto.Protocol
open Daisyway.Crypto.Lockstep (Kme Config Conn)
open Daisyway.Net.Manager Daisyway.Net.Server Daisyway.Net.Deployment

/-- KMEs that may give any answer. -/
def openKme : Kme := ⟨fun _ => true, fun _ _ => true⟩

/-- There is no answer: the request failed, or the body could not be read. -/
def noAnswer : KmeAnswer → Bool
  | .sendFailed => true
  | .response _ text json => text.isNone && json.isNone

/-- The step brings no answer of a KME. -/
def unanswered : Network.Act → Bool
  | .server (.task _ (.proto (.fetched answer _))) => noAnswer answer
  | .client (.fetched answer) => noAnswer answer
  | _ => true

/-- The id of the key the client waits for. -/
def clientRequested (w : Network) : Option Uuid :=
  w.conns.getLast?.bind fun conn => conn.client.requested

theorem fetch_noAnswer (decode : Base64Decode) {answer : KmeAnswer} (h : noAnswer answer = true) :
    ∃ e, fetchKeyInternal decode answer = .err e := by
  cases answer with
  | sendFailed => exact ⟨_, rfl⟩
  | response status text json =>
    obtain ⟨rfl, rfl⟩ : text = none ∧ json = none := by simpa [noAnswer] using h
    unfold fetchKeyInternal
    dsimp only
    split_ifs
    · exact ⟨_, rfl⟩
    · exact ⟨_, rfl⟩

/-- The KMEs may give the answer in the step. -/
def Allowed (kme : Kme) (w : Network) : Network.Act → Prop
  | .client (.fetched answer) => ∀ id, clientRequested w = some id → kme.specific id answer = true
  | .server (.task _ (.proto (.fetched answer _))) => kme.any answer = true
  | _ => True

theorem allowsClient_of_allowed {kme : Kme} {w : Network} {conn : Conn}
    {a : ClientProtocol.Act} (hconn : w.conns.getLast? = some conn)
    (hopen : openKme.allowsClient conn.client a = true) (h : Allowed kme w (.client a)) :
    kme.allowsClient conn.client a = true := by
  cases a with
  | fetched answer =>
    obtain ⟨id, hid, -⟩ := (Option.any_eq_true _ _).mp hopen
    have hrequested : clientRequested w = some id := by
      unfold clientRequested
      rw [hconn, Option.bind_some]
      exact hid
    exact (Option.any_eq_true _ _).mpr ⟨id, hid, h id hrequested⟩
  | read | readFailed | wroteAck | writeFailed | oskSet => rfl

theorem allowsServer_of_allowed {kme : Kme} {w : Network} {i : StreamId}
    {a : ServerProtocol.Act} (h : Allowed kme w (.server (.task i (.proto a)))) :
    kme.allowsServer a = true := by
  cases a with
  | fetched answer nonce => exact h
  | wrote | writeFailed | read | readFailed | oskSet | slept => rfl

/-- A step without an answer is allowed by KMEs whose requests may fail. -/
theorem allowed_of_unanswered (decode : Base64Decode) {kme : Kme}
    (hkme : ∀ answer e, fetchKeyInternal decode answer = .err e →
      kme.any answer = true ∧ ∀ id, kme.specific id answer = true)
    {w : Network} {a : Network.Act} (h : unanswered a = true) : Allowed kme w a := by
  unfold Allowed
  split
  · next answer =>
    obtain ⟨e, he⟩ := fetch_noAnswer decode h
    exact fun id _ => (hkme answer e he).2 id
  · next i answer nonce =>
    obtain ⟨e, he⟩ := fetch_noAnswer decode h
    exact (hkme answer e he).1
  · trivial

/-- Which answers the KMEs may give matters only in the steps that bring one. -/
theorem step_of_allowed (cfg : Config) {t : Timings} {kme : Kme} {w w' : Network}
    {a : Network.Act} (hs : w.step { cfg with kme := openKme } t a = some w')
    (h : Allowed kme w a) : w.step { cfg with kme } t a = some w' := by
  cases a with
  | client a =>
    simp only [Network.step, Network.clientStep] at hs ⊢
    obtain ⟨conn, hconn, hs⟩ := Option.bind_eq_some_iff.mp hs
    obtain ⟨d, hd, hs⟩ := Option.bind_eq_some_iff.mp hs
    obtain ⟨conn', hstep, rfl⟩ := Option.map_eq_some_iff.mp hs
    have hconn' : conn.clientStep { cfg with kme } a = some conn' := by
      unfold Conn.clientStep at hstep ⊢
      split_ifs at hstep with hopen
      exact (if_pos (allowsClient_of_allowed hconn hopen h)).trans hstep
    rw [hconn, Option.bind_some, hd, Option.bind_some, hconn', Option.map_some]
  | server a =>
    simp only [Network.step] at hs ⊢
    cases a with
    | task i ta =>
      cases ta with
      | proto pa =>
        simp only [Network.serverStep] at hs ⊢
        split_ifs at hs
        exact (if_pos (allowsServer_of_allowed h)).trans hs
      | sendOsk | sendExit | cancel => exact hs
    | accept | acceptFailed | recv | oskSent | oskFailed => exact hs
  | connect | intrude | lose | cutRequests | cutAcks | worker | clientWorker => exact hs

end Daisyway.Net.Answers
