import Daisyway.Crypto.Lockstep

/-! # Answers with another id

The client asks its KME for the id in the request, and derives its key from the id and the key of
the answer. The two ids are compared nowhere, and the acknowledgement carries nothing of the key: an
answer with another id completes the round on both sides, and the two ends derive different keys
unless the hash collides. -/

namespace Daisyway.Crypto.Mismatch

open Daisyway.Prim Daisyway.Crypto.Basics Daisyway.Crypto.Kdf Daisyway.Crypto.Protocol
open Daisyway.Crypto.Lockstep Daisyway.Etsi014 Daisyway.Lib.Run

/-- Every answer of the two KMEs carries the key that belongs to the id it carries. -/
def Truthful (cfg : Config) : Prop :=
  ∃ belongs : Uuid → Key,
    (∀ a k, cfg.kme.any a = true → fetchKeyInternal cfg.ext.base64Decode a = .ok k →
      k.key = belongs k.id) ∧
    ∀ x a k, cfg.kme.specific x a = true → fetchKeyInternal cfg.ext.base64Decode a = .ok k →
      k.key = belongs k.id

/-- The input of the last hash in the derivation of the round's key. -/
def hashedIn (E : Externals) (params : DaisywayProtocolParameters) (r : Round) : Bytes :=
  kdfHashed E.shake256 params r.req.nonce r.qkd

/-- The client takes every answer that carries a key, whatever its id: it writes the acknowledgement
and returns a key. -/
theorem client_takes_any_id {E : Externals} {params : DaisywayProtocolParameters}
    {p : ClientProtocol} {req : RekeyReq} {answer : KmeAnswer} {k : Etsi014Key}
    (hpc : p.pc = .fetch req) (hf : fetchKeyInternal E.base64Decode answer = .ok k) :
    ∃ p', p.step E params (.fetched answer) = some p' ∧
      p'.step E params .wroteAck = some (p.complete E params ⟨req, k⟩) := by
  refine ⟨{ p with pc := .writeAck ⟨req, k⟩ }, ?_, rfl⟩
  unfold ClientProtocol.step
  rw [hpc]
  simp only [hf]

section Keys
variable {cfg : Config} {p : ServerProtocol} {c : Conn}

/-- The ids of the two answers of a round agree exactly if the two keys do, or what was hashed for
them collides. -/
theorem round_key_eq_iff (hm : Mirrored cfg.server cfg.client) (ht : Truthful cfg) {rs rc : Round}
    (hs : ServerRound cfg rs) (hc : ClientRound cfg rc) (hreq : rc.req = rs.req) :
    (rc.qkd.id = rs.qkd.id → rc.key cfg.ext cfg.client = rs.key cfg.ext cfg.server) ∧
      (rc.qkd.id ≠ rs.qkd.id → rc.key cfg.ext cfg.client ≠ rs.key cfg.ext cfg.server ∨
        Collides cfg.ext.shake256 (hashedIn cfg.ext cfg.client rc)
          (hashedIn cfg.ext cfg.server rs)) := by
  obtain ⟨belongs, hany, hspecific⟩ := ht
  obtain ⟨-, a, ha, hf⟩ := hs
  obtain ⟨a', ha', hf'⟩ := hc
  have hks : rs.qkd.key = belongs rs.qkd.id := hany a rs.qkd ha hf
  have hkc : rc.qkd.key = belongs rc.qkd.id := hspecific _ a' rc.qkd ha' hf'
  unfold Round.key hashedIn
  rw [hreq]
  constructor
  · intro hid
    refine derive_congr ⟨hm.psk.symm, rfl, ?_, hid, ?_⟩
    · rw [hkc, hks, hid]
    · rw [hm.peer, hm.peer', Sym2.eq_swap]
  · intro hid
    by_cases he : deriveDaisywayKey cfg.ext.shake256 cfg.client rs.req.nonce rc.qkd =
        deriveDaisywayKey cfg.ext.shake256 cfg.server rs.req.nonce rs.qkd
    · rcases derive_eq_cases he with hsame | hcol
      · exact absurd hsame.qkdId hid
      · exact Or.inr hcol
    · exact Or.inl he

end Keys

/-- **The client acknowledges the key it was given.** Every answer that carries a key is
acknowledged; the round then completes on both ends, with equal keys if the answer has the id that
was asked for, and with different keys, or a collision of the two inputs hashed for them, if it has
another. -/
theorem ack_for_any_id {cfg : Config} (hm : Mirrored cfg.server cfg.client) (ht : Truthful cfg) :
    (∀ (p : ClientProtocol) req answer k, p.pc = .fetch req →
      fetchKeyInternal cfg.ext.base64Decode answer = .ok k →
      ClientProtocol.written .wroteAck = rekeyAck.asBytes ∧
        ∃ p', p.step cfg.ext cfg.client (.fetched answer) = some p' ∧
          p'.step cfg.ext cfg.client .wroteAck = some (p.complete cfg.ext cfg.client ⟨req, k⟩)) ∧
    ∀ acts l, run (Link.step cfg) Link.new acts = some l →
      ∀ (n : ℕ) rs, l.server.rounds[n]? = some rs →
        ∃ rc, l.conn.client.rounds[n]? = some rc ∧ rc.req = rs.req ∧
          Uuid.fromBytes rc.req.qkdKeyId = rs.qkd.id ∧
          l.server.keys[n]? = some (rs.key cfg.ext cfg.server) ∧
          l.conn.client.keys[n]? = some (rc.key cfg.ext cfg.client) ∧
          (rc.qkd.id = rs.qkd.id → rc.key cfg.ext cfg.client = rs.key cfg.ext cfg.server) ∧
          (rc.qkd.id ≠ rs.qkd.id → rc.key cfg.ext cfg.client ≠ rs.key cfg.ext cfg.server ∨
            Collides cfg.ext.shake256 (hashedIn cfg.ext cfg.client rc)
              (hashedIn cfg.ext cfg.server rs)) := by
  refine ⟨fun p req answer k hpc hf => ⟨rfl, client_takes_any_id hpc hf⟩,
    fun acts l h n rs hn => ?_⟩
  have hinv := run_linkInv h
  obtain ⟨rc, hrc, hreq⟩ := hinv.client_round hn
  have hs : ServerRound cfg rs := hinv.server.rounds_ok rs (List.mem_of_getElem? hn)
  have hc : ClientRound cfg rc := hinv.client.rounds_ok rc (List.mem_of_getElem? hrc)
  refine ⟨rc, hrc, hreq, ?_, ?_, ?_, round_key_eq_iff hm ht hs hc hreq⟩
  · rw [hreq, hs.1, Uuid.fromBytes_asBytes]
  · rw [hinv.server.keys_eq, List.getElem?_map, hn, Option.map_some]
  · rw [hinv.client.keys_eq, List.getElem?_map, hrc, Option.map_some]

/-! ### A sample mismatch -/

theorem fetch_sampleAnswer (b : UInt8) (h : b = 1 ∨ b = 2) :
    fetchKeyInternal Lib.Base64.decode (sampleAnswer (sampleKey b)) = .ok (sampleKey b) := by
  rcases h with rfl | rfl <;> decide +kernel

theorem sampleConfig_truthful : Truthful (sampleConfig (sampleKey 1) (sampleKey 2)) := by
  refine ⟨fun id => Vector.replicate 32 id.asBytes[0], ?_, ?_⟩
  · intro a k ha hf
    obtain rfl : a = sampleAnswer (sampleKey 1) := by simpa [sampleConfig] using ha
    obtain rfl := Outcome.ok.inj ((fetch_sampleAnswer 1 (Or.inl rfl)).symm.trans hf)
    rfl
  · intro x a k ha hf
    obtain rfl : a = sampleAnswer (sampleKey 2) := by simpa [sampleConfig] using ha
    obtain rfl := Outcome.ok.inj ((fetch_sampleAnswer 2 (Or.inr rfl)).symm.trans hf)
    rfl

/-- The request of the sample round. -/
def sampleReq : RekeyReq := RekeyReq.new (sampleKey 1).id.asBytes (zeroed 32)

/-- Truthful KMEs and a round that completes on both ends, where the client was asked for one key,
acknowledged another and the ends hold different keys. -/
theorem sample_mismatch_acknowledged :
    Mirrored (sampleConfig (sampleKey 1) (sampleKey 2)).server
        (sampleConfig (sampleKey 1) (sampleKey 2)).client ∧
      Truthful (sampleConfig (sampleKey 1) (sampleKey 2)) ∧
      ∃ l, run (Link.step (sampleConfig (sampleKey 1) (sampleKey 2))) Link.new
          (sampleRound (sampleKey 1) (sampleKey 2)) = some l ∧
        l.server.rounds = [⟨sampleReq, sampleKey 1⟩] ∧
        l.conn.client.rounds = [⟨sampleReq, sampleKey 2⟩] ∧
        (sampleKey 2).id ≠ Uuid.fromBytes sampleReq.qkdKeyId ∧
        l.conn.acks.sent = rekeyAck.asBytes ∧ l.server.keys ≠ l.conn.client.keys := by
  refine ⟨sampleConfig_mirrored _ _, sampleConfig_truthful, ?_⟩
  have h : ((run (Link.step (sampleConfig (sampleKey 1) (sampleKey 2))) Link.new
      (sampleRound (sampleKey 1) (sampleKey 2))).map fun l =>
        (l.server.rounds, l.conn.client.rounds, l.conn.acks.sent,
          decide (l.server.keys = l.conn.client.keys))) =
      some ([⟨sampleReq, sampleKey 1⟩], [⟨sampleReq, sampleKey 2⟩], rekeyAck.asBytes, false) := by
    decide +kernel
  obtain ⟨l, hl, hn⟩ := Option.map_eq_some_iff.mp h
  simp only [Prod.mk.injEq, decide_eq_false_iff_not] at hn
  exact ⟨l, hl, hn.1, hn.2.1, by decide +kernel, hn.2.2.1, hn.2.2.2⟩

/-- The sample round with the key that was not asked for. -/
theorem ack_for_any_id_sample :
    ∃ l, run (Link.step (sampleConfig (sampleKey 1) (sampleKey 2))) Link.new
        (sampleRound (sampleKey 1) (sampleKey 2)) = some l ∧
      ∃ rs, l.server.rounds[0]? = some rs ∧
        ∃ rc, l.conn.client.rounds[0]? = some rc ∧ Uuid.fromBytes rc.req.qkdKeyId = rs.qkd.id := by
  have h : ((run (Link.step (sampleConfig (sampleKey 1) (sampleKey 2))) Link.new
      (sampleRound (sampleKey 1) (sampleKey 2))).map fun l => l.server.rounds[0]?.isSome) =
        some true := by
    decide +kernel
  obtain ⟨l, hl, hn⟩ := Option.map_eq_some_iff.mp h
  obtain ⟨rs, hrs⟩ := Option.isSome_iff_exists.mp hn
  obtain ⟨rc, hrc, -, hid, -⟩ :=
    (ack_for_any_id (sampleConfig_mirrored _ _) sampleConfig_truthful).2 _ l hl 0 rs hrs
  exact ⟨l, hl, rs, hrs, rc, hrc, hid⟩

end Daisyway.Crypto.Mismatch
