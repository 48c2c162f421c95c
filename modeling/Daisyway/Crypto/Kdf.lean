import Daisyway.Crypto.Basics
import Mathlib.Data.Sym.Sym2

/-! # What the key derivation binds

The bytes mixed into the derive-key domain determine, and are determined by, the pre-shared key, the
nonce, the QKD key, its id and the unordered pair of peer ids (`kdfInput_asBytes_eq_iff`). Every
field has a fixed length, so the packed layout is separable; sorting the peer ids forgets their
order and nothing else (`connectionId_eq_iff`). Two equal keys therefore come from the same five
inputs or from a collision of the hash (`derive_eq_cases`). -/

namespace Daisyway.Crypto.Kdf

open Daisyway.Prim Daisyway.Crypto.Hash Daisyway.Crypto.Basics

/-- The two inputs are distinct and of one length, and the hash has the same first 32 bytes on them.
-/
structure Collides (S : Shake) (x y : Bytes) : Prop where
  distinct : x ≠ y
  length_eq : x.length = y.length
  hash_eq : ∀ i < keyLength, S x i = S y i

/-- The input of the last hash of the derivation. -/
def kdfHashed (S : Shake) (p : DaisywayProtocolParameters) (n : Nonce) (k : Etsi014Key) : Bytes :=
  (ProtocolDomains.deriveKey S).mixInput (kdfInput p n k).asBytes

/-- The five inputs of two calls of `deriveDaisywayKey` agree. -/
structure SameInputs (p1 p2 : DaisywayProtocolParameters) (n1 n2 : Nonce) (k1 k2 : Etsi014Key) :
    Prop where
  psk : p1.psk = p2.psk
  nonce : n1 = n2
  qkdKey : k1.key = k2.key
  qkdId : k1.id = k2.id
  peers : s(p1.localPeerId, p1.remotePeerId) = s(p2.localPeerId, p2.remotePeerId)

/-- The parameters of the two ends of one tunnel. -/
structure Mirrored (p1 p2 : DaisywayProtocolParameters) : Prop where
  psk : p1.psk = p2.psk
  peer : p1.localPeerId = p2.remotePeerId
  peer' : p1.remotePeerId = p2.localPeerId

/-! ### Sorting the peer ids -/

theorem new_comm (a b : PeerId) :
    WireGuardConnectionId.new a b = WireGuardConnectionId.new b a := by
  unfold WireGuardConnectionId.new
  rcases List.le_total a.toList b.toList with h | h
  · rw [if_neg (List.not_lt.mpr h)]
    split_ifs with h'
    · rfl
    · rw [Vector.toList_inj.mp (List.le_antisymm h (List.not_lt.mp h'))]
  · rw [if_neg (List.not_lt.mpr h)]
    split_ifs with h'
    · rfl
    · rw [Vector.toList_inj.mp (List.le_antisymm h (List.not_lt.mp h'))]

/-- The sorted pair is the pair, in one of its two orders. -/
theorem new_cases (a b : PeerId) :
    WireGuardConnectionId.new a b = ⟨a, b⟩ ∨ WireGuardConnectionId.new a b = ⟨b, a⟩ := by
  unfold WireGuardConnectionId.new
  split_ifs
  · exact Or.inr rfl
  · exact Or.inl rfl

/-- **Sorting forgets the order of the two ids and nothing else.** -/
theorem connectionId_eq_iff {a b c d : PeerId} :
    WireGuardConnectionId.new a b = WireGuardConnectionId.new c d ↔ s(a, b) = s(c, d) := by
  rw [Sym2.eq_iff]
  constructor
  · intro h
    rcases new_cases a b with h1 | h1 <;> rcases new_cases c d with h2 | h2 <;>
      rw [h1, h2, WireGuardConnectionId.mk.injEq] at h <;> obtain ⟨rfl, rfl⟩ := h <;> simp
  · rintro (⟨rfl, rfl⟩ | ⟨rfl, rfl⟩)
    · rfl
    · exact new_comm a b

/-! ### The packed layout -/

@[simp] theorem length_connectionId (c : WireGuardConnectionId) : c.asBytes.length = 64 := by
  simp [WireGuardConnectionId.asBytes]

@[simp] theorem length_kdfInput (k : KdfInput) : k.asBytes.length = 176 := by
  simp [KdfInput.asBytes]

theorem connectionId_asBytes_injective : Function.Injective WireGuardConnectionId.asBytes := by
  intro c c' h
  obtain ⟨h1, h2⟩ := List.append_inj h (by simp)
  rw [Vector.toList_inj] at h1 h2
  cases c
  cases c'
  simp_all

theorem kdfInput_asBytes_injective : Function.Injective KdfInput.asBytes := by
  intro k k' h
  obtain ⟨hpsk, h⟩ := List.append_inj h (by simp)
  obtain ⟨hnonce, h⟩ := List.append_inj h (by simp)
  obtain ⟨hkey, h⟩ := List.append_inj h (by simp)
  obtain ⟨hid, h⟩ := List.append_inj h (by simp)
  have hconn := connectionId_asBytes_injective h
  rw [Vector.toList_inj] at hpsk hnonce hkey hid
  cases k
  cases k'
  simp_all

/-- **The mixed bytes bind the five inputs.** -/
theorem kdfInput_asBytes_eq_iff {p1 p2 : DaisywayProtocolParameters} {n1 n2 : Nonce}
    {k1 k2 : Etsi014Key} :
    (kdfInput p1 n1 k1).asBytes = (kdfInput p2 n2 k2).asBytes ↔ SameInputs p1 p2 n1 n2 k1 k2 := by
  rw [kdfInput_asBytes_injective.eq_iff]
  simp only [kdfInput, KdfInput.new, KdfInput.mk.injEq, connectionId_eq_iff,
    Uuid.toBytesLe_injective.eq_iff]
  constructor
  · rintro ⟨h1, h2, h3, h4, h5⟩; exact ⟨h1, h2, h3, h4, h5⟩
  · rintro ⟨h1, h2, h3, h4, h5⟩; exact ⟨h1, h2, h3, h4, h5⟩

/-! ### Equal keys -/

theorem derive_eq_iff {S : Shake} {p1 p2 : DaisywayProtocolParameters} {n1 n2 : Nonce}
    {k1 k2 : Etsi014Key} :
    deriveDaisywayKey S p1 n1 k1 = deriveDaisywayKey S p2 n2 k2 ↔
      ∀ i < keyLength, S (kdfHashed S p1 n1 k1) i = S (kdfHashed S p2 n2 k2) i :=
  readN_eq_iff

theorem derive_congr {S : Shake} {p1 p2 : DaisywayProtocolParameters} {n1 n2 : Nonce}
    {k1 k2 : Etsi014Key} (h : SameInputs p1 p2 n1 n2 k1 k2) :
    deriveDaisywayKey S p1 n1 k1 = deriveDaisywayKey S p2 n2 k2 := by
  unfold deriveDaisywayKey
  rw [kdfInput_asBytes_eq_iff.mpr h]

/-- The two ends of a tunnel derive the same key. -/
theorem derive_mirrored {S : Shake} {p1 p2 : DaisywayProtocolParameters} (h : Mirrored p1 p2)
    (n : Nonce) (k : Etsi014Key) : deriveDaisywayKey S p1 n k = deriveDaisywayKey S p2 n k :=
  derive_congr ⟨h.psk, rfl, rfl, rfl, by rw [h.peer, h.peer', Sym2.eq_swap]⟩

/-- **Equal keys come from equal inputs or from a collision** of the two inputs that were hashed. -/
theorem derive_eq_cases {S : Shake} {p1 p2 : DaisywayProtocolParameters} {n1 n2 : Nonce}
    {k1 k2 : Etsi014Key} (h : deriveDaisywayKey S p1 n1 k1 = deriveDaisywayKey S p2 n2 k2) :
    SameInputs p1 p2 n1 n2 k1 k2 ∨ Collides S (kdfHashed S p1 n1 k1) (kdfHashed S p2 n2 k2) := by
  by_cases hb : (kdfInput p1 n1 k1).asBytes = (kdfInput p2 n2 k2).asBytes
  · exact Or.inl (kdfInput_asBytes_eq_iff.mp hb)
  · refine Or.inr ⟨fun he => hb ?_, ?_, derive_eq_iff.mp h⟩
    · exact List.append_cancel_left he
    · simp [kdfHashed, HashDomain.mixInput]

/-- **Symmetry and binding of the key derivation.** -/
theorem derive_symmetry_and_binding (p1 p2 : DaisywayProtocolParameters) (n1 n2 : Nonce)
    (k1 k2 : Etsi014Key) :
    ((kdfInput p1 n1 k1).asBytes = (kdfInput p2 n2 k2).asBytes ↔ SameInputs p1 p2 n1 n2 k1 k2) ∧
      (∀ S : Shake, Mirrored p1 p2 → deriveDaisywayKey S p1 n1 k1 = deriveDaisywayKey S p2 n1 k1) ∧
      ∀ S : Shake, deriveDaisywayKey S p1 n1 k1 = deriveDaisywayKey S p2 n2 k2 →
        SameInputs p1 p2 n1 n2 k1 k2 ∨ Collides S (kdfHashed S p1 n1 k1) (kdfHashed S p2 n2 k2) :=
  ⟨kdfInput_asBytes_eq_iff, fun _ hm => derive_mirrored hm n1 k1, fun _ => derive_eq_cases⟩

end Daisyway.Crypto.Kdf
