import Daisyway.Crypto.Kdf
import Daisyway.Net.Completeness

/-! # Where the keys of the server come from

The peer of a connection sends bytes of its choice, and any host can connect. What it cannot do is
to choose a key: the server derives every key from a QKD key it has fetched from its own KME for
this round, and a fetched key is used at most once. On one connection the keys negotiated are those
fetched, in order, except that the last one may be unused (`Accounted`): a round that fails ends the
protocol.

If the KME never gives out one id twice, the server passes no key on twice, unless the hash function
has a collision (`no_key_twice`). -/

namespace Daisyway.Net.Provenance

open Daisyway.Prim Daisyway.Etsi014 Daisyway.Crypto.Basics Daisyway.Crypto.Kdf
open Daisyway.Crypto.Protocol Daisyway.Lib.Run Daisyway.Lib.Lists Daisyway.Osk.Deadman
open Daisyway.Net.Manager Daisyway.Net.Server Daisyway.Net.Server.TcpServer Daisyway.Net.Delivery

/-! ### What a run fetches -/

/-- A key of the KME, and the nonce drawn for the request that names it. -/
structure Fetch where
  nonce : Nonce
  qkd : Etsi014Key
  deriving DecidableEq

/-- The key derived from it. -/
def Fetch.key (E : Externals) (params : DaisywayProtocolParameters) (f : Fetch) : Key :=
  deriveDaisywayKey E.shake256 params f.nonce f.qkd

/-- The key an action of the protocol brings. -/
def fetchOf (E : Externals) : ServerProtocol.Act → List Fetch
  | .fetched answer nonce =>
    match fetchKeyInternal E.base64Decode answer with
    | .ok key => [⟨nonce, key⟩]
    | _ => []
  | _ => []

/-- The keys fetched in a run, each with the stream of its task. -/
def fetches (E : Externals) (acts : List Act) : List (StreamId × Fetch) :=
  acts.flatMap fun
    | .task i (.proto a) => (fetchOf E a).map (i, ·)
    | _ => []

theorem fetches_append (E : Externals) (acts acts' : List Act) :
    fetches E (acts ++ acts') = fetches E acts ++ fetches E acts' :=
  List.flatMap_append

/-- A key fetched in a run was in an answer. -/
theorem mem_fetches {E : Externals} {acts : List Act} {i : StreamId} {f : Fetch}
    (h : (i, f) ∈ fetches E acts) :
    ∃ answer, .task i (.proto (.fetched answer f.nonce)) ∈ acts ∧
      fetchKeyInternal E.base64Decode answer = .ok f.qkd := by
  obtain ⟨a, ha, hf⟩ := List.mem_flatMap.mp h
  split at hf
  · next j pa =>
    obtain ⟨f', hf', he⟩ := List.mem_map.mp hf
    obtain ⟨rfl, rfl⟩ := Prod.mk.inj he
    unfold fetchOf at hf'
    split at hf'
    · next answer nonce =>
      split at hf'
      · next key hkey =>
        obtain rfl := List.mem_singleton.mp hf'
        exact ⟨answer, ha, hkey⟩
      · cases hf'
    · cases hf'
  · cases hf

/-! ### One connection -/

def Round.fetch (r : Round) : Fetch := ⟨r.req.nonce, r.qkd⟩

/-- The round in progress, unless the protocol has ended. -/
def openRound : ServerPc → Option (List Round)
  | .write r _ | .readAck r => some [r]
  | .failed _ | .panicked => none
  | _ => some []

/-- The keys fetched are those of the completed rounds, and at most one more: the one of the round
in progress, or of the round in which the protocol ended. -/
structure Accounted (E : Externals) (params : DaisywayProtocolParameters) (p : ServerProtocol)
    (fetched : List Fetch) : Prop where
  keys_eq : p.keys = p.rounds.map (Round.key E params)
  rounds : ∃ unused : List Round, unused.length ≤ 1 ∧
    fetched = (p.rounds ++ unused).map Round.fetch ∧ ∀ r ∈ openRound p.pc, unused = r

section Protocol
variable {E : Externals} {params : DaisywayProtocolParameters} {p p' : ServerProtocol}
  {a : ServerProtocol.Act} {fetched : List Fetch}

theorem accounted_new : Accounted E params ServerProtocol.new [] :=
  ⟨rfl, [], by simp, rfl, fun r hr => Option.some.inj hr⟩

/-- A step that neither fetches a key nor completes a round. -/
theorem Accounted.setPc (h : Accounted E params p fetched) {pc : ServerPc}
    (hpc : openRound pc = openRound p.pc ∨ openRound pc = none) :
    Accounted E params { p with pc } fetched := by
  obtain ⟨unused, hlen, hf, hopen⟩ := h.rounds
  refine ⟨h.keys_eq, unused, hlen, hf, fun r hr => ?_⟩
  rcases hpc with he | he
  · exact hopen r (he ▸ hr)
  · exact absurd (he ▸ hr) (by simp)

/-- **A step of the protocol keeps the account.** -/
theorem accounted_step (h : Accounted E params p fetched) (hs : p.step E params a = some p') :
    Accounted E params p' (fetched ++ fetchOf E a) := by
  cases ServerProtocol.step_trans hs with
  | @fetchOk answer nonce key hpc hf =>
    obtain ⟨unused, -, hfetched, hopen⟩ := h.rounds
    obtain rfl : unused = [] := hopen [] (by rw [hpc]; rfl)
    have hnew : fetchOf E (.fetched answer nonce) = [⟨nonce, key⟩] := by simp [fetchOf, hf]
    refine ⟨h.keys_eq, [⟨RekeyReq.new key.id.asBytes nonce, key⟩], by simp, ?_,
      fun r hr => Option.some.inj hr⟩
    rw [hnew, hfetched, List.append_nil, List.map_append]
    rfl
  | @fetchErr answer nonce e hpc hf =>
    have hnone : fetchOf E (.fetched answer nonce) = [] := by simp [fetchOf, hf]
    rw [hnone, List.append_nil]
    exact h.setPc (Or.inr rfl)
  | @fetchPanic answer nonce hpc hf =>
    have hnone : fetchOf E (.fetched answer nonce) = [] := by simp [fetchOf, hf]
    rw [hnone, List.append_nil]
    exact h.setPc (Or.inr rfl)
  | wroteSome hpc | wroteAll hpc | oskOk hpc | slept hpc =>
    simp only [fetchOf, List.append_nil]
    exact h.setPc (Or.inl (by rw [hpc]; rfl))
  | writeErr hpc | readBad hpc | readErr hpc | oskErr hpc =>
    simp only [fetchOf, List.append_nil]
    exact h.setPc (Or.inr rfl)
  | @readOk r hpc =>
    obtain ⟨unused, -, hfetched, hopen⟩ := h.rounds
    obtain rfl : unused = [r] := hopen [r] (by rw [hpc]; rfl)
    simp only [fetchOf, List.append_nil]
    refine ⟨?_, [], by simp, ?_, fun r hr => Option.some.inj hr⟩
    · simp only [ServerProtocol.complete, h.keys_eq, List.map_append, List.map_cons, List.map_nil]
    · simp only [ServerProtocol.complete, List.append_nil, hfetched]

/-- The keys negotiated are those fetched, except possibly the last one. -/
theorem Accounted.keys_front (h : Accounted E params p fetched) :
    p.keys <+: fetched.map (Fetch.key E params) ∧ fetched.length ≤ p.keys.length + 1 := by
  obtain ⟨unused, hlen, hf, -⟩ := h.rounds
  have hkey : Round.key E params = Fetch.key E params ∘ Round.fetch := rfl
  constructor
  · rw [h.keys_eq, hf, List.map_map, ← hkey, List.map_append]
    exact List.prefix_append _ _
  · rw [h.keys_eq, hf]
    simp only [List.length_map, List.length_append]
    omega

end Protocol

/-! ### The server -/

/-- The account of every task; nothing is fetched for a stream that was not accepted. -/
structure Fetched (E : Externals) (params : DaisywayProtocolParameters) (acts : List Act)
    (s : TcpServer) : Prop where
  lt : ∀ f ∈ fetches E acts, f.1 < s.tasks.length
  task : ∀ (i : ℕ) (t : Task), s.tasks[i]? = some t →
    Accounted E params t.proto (valuesOf i (fetches E acts))

section Server
variable {E : Externals} {params : DaisywayProtocolParameters} {acts : List Act}
  {s s' : TcpServer}

theorem fetched_new : Fetched E params [] TcpServer.new :=
  ⟨fun f hf => (by cases hf), fun i t ht => by simp [TcpServer.new] at ht⟩

/-- A step of the manager fetches nothing, and leaves the protocols of the tasks as they are. -/
theorem Fetched.manager (h : Fetched E params acts s) {a : Act} (ha : ∀ i ta, a ≠ .task i ta)
    (hs : s.step E params a = some s') : Fetched E params (acts ++ [a]) s' := by
  have hsame : fetches E (acts ++ [a]) = fetches E acts := by
    have hnone : fetches E [a] = [] := by
      cases a with
      | task i ta => exact absurd rfl (ha i ta)
      | accept | acceptFailed | recv | oskSent | oskFailed => rfl
    rw [fetches_append, hnone, List.append_nil]
  refine ⟨fun f hf => ?_, fun i t' ht' => ?_⟩
  · rw [hsame] at hf
    exact (h.lt f hf).trans_le (step_tasks_length hs)
  · rw [hsame]
    rcases step_protos hs ht' with ⟨t, ht, hproto⟩ | ⟨-, rfl, hproto⟩ | ⟨ta, _, _, he, -⟩
    · rw [hproto]
      exact h.task i t ht
    · -- nothing was fetched for the new stream
      rw [hproto, valuesOf_eq_nil fun f hf => (h.lt f hf).ne]
      exact accounted_new
    · exact absurd he (ha i ta)

/-- A step of a task fetches a key for its own stream, if any. -/
theorem Fetched.step_task (h : Fetched E params acts s) {i : StreamId} {ta : TaskAct} {t t' : Task}
    {evs : List ConnectionHandlerEvent} (ht : s.tasks[i]? = some t)
    (hs : t.step E params s.ended.isSome ta = some (t', evs)) :
    Fetched E params (acts ++ [.task i ta])
      { s with tasks := s.tasks.set i t', queue := s.queue ++ evs } := by
  have hlt : i < s.tasks.length := (List.getElem?_eq_some_iff.mp ht).1
  obtain ⟨new, hnew, hacc⟩ : ∃ new, fetches E [.task i ta] = new.map (i, ·) ∧
      Accounted E params t'.proto (valuesOf i (fetches E acts) ++ new) := by
    have hold := h.task i t ht
    cases Task.step_trans hs with
    | @proto a p hphase ha hp =>
      exact ⟨fetchOf E a, by simp [fetches], accounted_step hold hp⟩
    | sendOsk hphase hpc hp => exact ⟨[], rfl, accounted_step hold hp⟩
    | sendExit | cancel => exact ⟨[], rfl, by rwa [List.append_nil]⟩
  refine ⟨fun f hf => ?_, fun j u hu => ?_⟩
  · rw [fetches_append, hnew] at hf
    rw [List.length_set]
    rcases List.mem_append.mp hf with hf | hf
    · exact h.lt f hf
    · obtain ⟨f', -, rfl⟩ := List.mem_map.mp hf
      exact hlt
  · rw [fetches_append, hnew, valuesOf_append]
    rcases getElem?_set_cases hu with ⟨rfl, rfl⟩ | ⟨hj, hu⟩
    · rwa [valuesOf_map_same]
    · have hnone : valuesOf j (new.map (i, ·)) = [] := by
        refine valuesOf_eq_nil fun f hf => ?_
        obtain ⟨f', -, rfl⟩ := List.mem_map.mp hf
        exact Ne.symm hj
      rw [hnone, List.append_nil]
      exact h.task j u hu

theorem run_fetched (hrun : run (TcpServer.step E params) TcpServer.new acts = some s) :
    Fetched E params acts s := by
  refine run_invariant_history (I := Fetched E params) fetched_new ?_ hrun
  intro acts s a s' h hs
  by_cases ha : ∃ i ta, a = .task i ta
  · obtain ⟨i, ta, rfl⟩ := ha
    cases step_trans hs with
    | task ht hstep => exact h.step_task ht hstep
  · exact h.manager (fun i ta he => ha ⟨i, ta, he⟩) hs

/-- The keys of the fetches, one connection after the other. -/
def derivable (E : Externals) (params : DaisywayProtocolParameters) (n : ℕ) (acts : List Act) :
    List Key :=
  (List.range n).flatMap fun i => (valuesOf i (fetches E acts)).map (Fetch.key E params)

theorem forwarded_derivable (hrun : run (TcpServer.step E params) TcpServer.new acts = some s)
    (hlt : s.tasks.length < connectionIds) :
    (s.forwarded.map Prod.snd).Sublist
      ((derivable E params s.tasks.length acts).map setFreshOsk) := by
  have hf := run_fetched hrun
  obtain ⟨hr, hd⟩ := run_delivers hrun hlt
  refine (forwarded_sublist hr hd hlt).trans ?_
  rw [← flatMap_range_getElem?, derivable, List.map_flatMap, List.length_map]
  refine List.Sublist.flatMap_right _ fun i hi => ?_
  obtain ⟨t, ht⟩ : ∃ t, s.tasks[i]? = some t := ⟨_, List.getElem?_eq_getElem (List.mem_range.mp hi)⟩
  rw [List.getElem?_map, ht]
  exact ((hf.task i t ht).keys_front.1.map setFreshOsk).sublist

theorem forwarded_nodup (hrun : run (TcpServer.step E params) TcpServer.new acts = some s)
    (hlt : s.tasks.length < connectionIds)
    (hkeys : (derivable E params s.tasks.length acts).Nodup) :
    (s.forwarded.map fun f => f.2.key).Nodup := by
  have hsub := (forwarded_derivable hrun hlt).map SetOsk.key
  rw [List.map_map, List.map_map] at hsub
  exact hsub.nodup (by simpa [Function.comp_def, setFreshOsk] using hkeys)

/-- Two fetches of the run are a collision of the hash function in the key derivation. -/
def Colliding (E : Externals) (params : DaisywayProtocolParameters) (acts : List Act) : Prop :=
  ∃ f ∈ fetches E acts, ∃ f' ∈ fetches E acts,
    Collides E.shake256 (kdfHashed E.shake256 params f.2.nonce f.2.qkd)
      (kdfHashed E.shake256 params f'.2.nonce f'.2.qkd)

/-- Keys with different ids give different keys. -/
theorem derivable_nodup (hrun : run (TcpServer.step E params) TcpServer.new acts = some s)
    (hids : ((fetches E acts).map fun f => f.2.qkd.id).Nodup) (hno : ¬ Colliding E params acts) :
    (derivable E params s.tasks.length acts).Nodup := by
  have hperm : (derivable E params s.tasks.length acts).Perm
      ((fetches E acts).map fun f => f.2.key E params) := by
    have hall := (perm_flatMap_valuesOf (run_fetched hrun).lt).map (Fetch.key E params)
    rwa [List.map_flatMap, List.map_map] at hall
  refine hperm.symm.nodup ?_
  refine List.Nodup.map_on (fun f hf f' hf' he => ?_) (List.Nodup.of_map _ hids)
  -- equal keys have equal inputs, and so equal ids
  rcases derive_eq_cases he with hsame | hcol
  · exact List.inj_on_of_nodup_map hids hf hf' hsame.qkdId
  · exact absurd ⟨f, hf, f', hf', hcol⟩ hno

/-- **Keys come from the server's own KME.** In every run of the server with fewer than `2 ^ 64`
connections, whatever the peers send: the keys negotiated on a connection are derived, in order,
from the keys fetched for it, of which at most the last one is not used; and the keys passed to the
OSK handler are, in order and each at most once, among the keys derived so, one connection after the
other. -/
theorem keys_from_own_kme (hrun : run (TcpServer.step E params) TcpServer.new acts = some s)
    (hlt : s.tasks.length < connectionIds) :
    (∀ (i : ℕ) (t : Task), s.tasks[i]? = some t →
      t.proto.keys <+: (valuesOf i (fetches E acts)).map (Fetch.key E params) ∧
        (valuesOf i (fetches E acts)).length ≤ t.proto.keys.length + 1) ∧
    (s.forwarded.map Prod.snd).Sublist
      ((derivable E params s.tasks.length acts).map setFreshOsk) :=
  ⟨fun i t ht => ((run_fetched hrun).task i t ht).keys_front, forwarded_derivable hrun hlt⟩

/-- **No key twice.** If the KME gives out no id twice in a run, the keys passed to the OSK handler
are pairwise different, or two of the inputs of the key derivation are a collision of the hash
function. -/
theorem no_key_twice (hrun : run (TcpServer.step E params) TcpServer.new acts = some s)
    (hlt : s.tasks.length < connectionIds)
    (hids : ((fetches E acts).map fun f => f.2.qkd.id).Nodup) :
    (s.forwarded.map fun f => f.2.key).Nodup ∨
      ∃ f ∈ fetches E acts, ∃ f' ∈ fetches E acts,
        Collides E.shake256 (kdfHashed E.shake256 params f.2.nonce f.2.qkd)
          (kdfHashed E.shake256 params f'.2.nonce f'.2.qkd) := by
  refine or_iff_not_imp_right.mpr fun hno => ?_
  exact forwarded_nodup hrun hlt (derivable_nodup hrun hids hno)

end Server

/-! ### A sample run -/

open Daisyway.Crypto.Lockstep (sampleExternals)
open Daisyway.Net.Zombies (sampleParams)
open Daisyway.Net.Completeness (sampleRekeying)

/-- Two keys are negotiated and both are forwarded. -/
def sampleForwarding : List Act := sampleRekeying ++ [.recv, .oskSent]

theorem keys_from_own_kme_sample :
    ∃ s, run (TcpServer.step sampleExternals sampleParams) TcpServer.new sampleForwarding =
        some s ∧ s.forwarded.length = 2 ∧
      (s.forwarded.map Prod.snd).Sublist
        ((derivable sampleExternals sampleParams 1 sampleForwarding).map setFreshOsk) := by
  have h : ((run (TcpServer.step sampleExternals sampleParams) TcpServer.new sampleForwarding).map
      fun s => (s.tasks.length, s.forwarded.length)) = some (1, 2) := by
    decide +kernel
  obtain ⟨s, hs, he⟩ := Option.map_eq_some_iff.mp h
  obtain ⟨hlen, hforwarded⟩ := Prod.mk.inj he
  have hkeys := (keys_from_own_kme hs (by rw [hlen]; decide)).2
  rw [hlen] at hkeys
  exact ⟨s, hs, hforwarded, hkeys⟩

theorem no_key_twice_sample :
    ∃ s, run (TcpServer.step sampleExternals sampleParams) TcpServer.new sampleForwarding =
        some s ∧ s.forwarded.length = 2 ∧
      ((s.forwarded.map fun f => f.2.key).Nodup ∨
        ∃ f ∈ fetches sampleExternals sampleForwarding,
          ∃ f' ∈ fetches sampleExternals sampleForwarding,
            Collides sampleExternals.shake256
              (kdfHashed sampleExternals.shake256 sampleParams f.2.nonce f.2.qkd)
              (kdfHashed sampleExternals.shake256 sampleParams f'.2.nonce f'.2.qkd)) := by
  have h : ((run (TcpServer.step sampleExternals sampleParams) TcpServer.new sampleForwarding).map
      fun s => (s.tasks.length, s.forwarded.length)) = some (1, 2) := by
    decide +kernel
  obtain ⟨s, hs, he⟩ := Option.map_eq_some_iff.mp h
  obtain ⟨hlen, hforwarded⟩ := Prod.mk.inj he
  exact ⟨s, hs, hforwarded, no_key_twice hs (by rw [hlen]; decide) (by decide +kernel)⟩

end Daisyway.Net.Provenance
