import Daisyway.Crypto.Hash

/-! # Protocol parameters, messages and the key derivation

The packed structures of the protocol are given by their bytes (`asBytes`): the input of the key
derivation is 176 bytes long, a rekey request 48 and its acknowledgement one. The random nonce of a
request is an argument. -/

namespace Daisyway.Crypto.Basics

open Daisyway.Prim Daisyway.Crypto.Hash

/-! ### Constants -/

abbrev Nonce := Key

/-- A WireGuard peer id, that is, a WireGuard public key. -/
abbrev PeerId := Vector UInt8 32

/-- The rekey interval in seconds where the configuration gives none. -/
def rekeyInterval : ℕ := 120

namespace ProtocolDomains

def protocolDomain : Bytes :=
  "Daisyway v1 by Paul Spooren & Karolin Varner, Feb-2025 with Shake256".toUTF8.data.toList

variable (S : Shake)

def root : HashDomain := HashDomain.zero.mix S protocolDomain

def deriveKey : HashDomain := (root S).mix S "derive key".toUTF8.data.toList

end ProtocolDomains

/-! ### The key derivation -/

structure DaisywayProtocolParameters where
  psk : Key
  localPeerId : PeerId
  remotePeerId : PeerId
  deriving DecidableEq

structure WireGuardConnectionId where
  firstPeer : PeerId
  secondPeer : PeerId
  deriving DecidableEq

namespace WireGuardConnectionId

/-- The two ids in increasing lexicographic order. -/
def new (selfPublicKey peerPublicKey : PeerId) : WireGuardConnectionId :=
  if peerPublicKey.toList < selfPublicKey.toList then ⟨peerPublicKey, selfPublicKey⟩
  else ⟨selfPublicKey, peerPublicKey⟩

def asBytes (c : WireGuardConnectionId) : Bytes := c.firstPeer.toList ++ c.secondPeer.toList

end WireGuardConnectionId

structure KdfInput where
  psk : Key
  nonce : Nonce
  qkdKey : Key
  qkdKeyId : UuidBytes
  wireguardConnectionId : WireGuardConnectionId
  deriving DecidableEq

namespace KdfInput

def new (psk nonce : Key) (qkdKey : Etsi014Key) (conn : WireGuardConnectionId) : KdfInput :=
  ⟨psk, nonce, qkdKey.key, qkdKey.id.toBytesLe, conn⟩

def asBytes (k : KdfInput) : Bytes :=
  k.psk.toList ++ (k.nonce.toList ++ (k.qkdKey.toList ++
    (k.qkdKeyId.toList ++ k.wireguardConnectionId.asBytes)))

end KdfInput

/-- The input of the key derivation, the bytes of which are mixed into the derive-key domain. -/
def kdfInput (params : DaisywayProtocolParameters) (nonce : Nonce) (key : Etsi014Key) : KdfInput :=
  KdfInput.new params.psk nonce key
    (WireGuardConnectionId.new params.localPeerId params.remotePeerId)

def deriveDaisywayKey (S : Shake) (params : DaisywayProtocolParameters) (nonce : Nonce)
    (key : Etsi014Key) : Key :=
  ((ProtocolDomains.deriveKey S).mix S (kdfInput params nonce key).asBytes).intoKey

/-! ### Messages -/

structure RekeyReq where
  qkdKeyId : UuidBytes
  nonce : Nonce
  deriving DecidableEq

namespace RekeyReq

/-- The number of bytes of a request. -/
def size : ℕ := 48

/-- A request for the key with the given id; `nonce` is the random value drawn for it. -/
def new (qkdKeyId : UuidBytes) (nonce : Nonce) : RekeyReq := ⟨qkdKeyId, nonce⟩

def asBytes (r : RekeyReq) : Bytes := r.qkdKeyId.toList ++ r.nonce.toList

/-- The request a zeroed buffer holds after the bytes `bs` were read into its front. -/
def ofBytes (bs : Bytes) : RekeyReq := ⟨fill 16 bs, fill 32 (bs.drop 16)⟩

@[simp] theorem length_asBytes (r : RekeyReq) : r.asBytes.length = size := by
  simp [asBytes, size]

theorem asBytes_ofBytes {bs : Bytes} (h : bs.length = size) : (ofBytes bs).asBytes = bs := by
  have h16 : (bs.take 16).length = 16 := by simp [h, size]
  have hf : fill 16 bs = fill 16 (bs.take 16) := by
    refine Vector.ext fun i hi => ?_
    simp only [fill, Vector.getElem_ofFn, List.getD_eq_getElem?_getD, List.getElem?_take, hi,
      if_true]
  rw [asBytes, ofBytes, hf, toList_fill h16, toList_fill (by simp [h, size]), List.take_append_drop]

theorem asBytes_injective : Function.Injective asBytes := by
  intro r r' h
  obtain ⟨h1, h2⟩ := List.append_inj h (by simp)
  rw [Vector.toList_inj] at h1 h2
  cases r
  cases r'
  simp_all

end RekeyReq

structure RekeyAck where
  dummyData : UInt8
  deriving DecidableEq

def rekeyAck : RekeyAck := ⟨1⟩

namespace RekeyAck

def asBytes (a : RekeyAck) : Bytes := [a.dummyData]

def validate (a : RekeyAck) : Except String Unit :=
  if a = rekeyAck then .ok ()
  else .error ("Rekey acknowledgement is invalid: Expected RekeyAck \x7b dummy_data: 1 \x7d " ++
    s!"but received RekeyAck \x7b dummy_data: {a.dummyData} \x7d")

theorem validate_ok_iff {a : RekeyAck} : a.validate = .ok () ↔ a = rekeyAck := by
  unfold validate
  split_ifs with h <;> simp [h]

end RekeyAck

end Daisyway.Crypto.Basics
