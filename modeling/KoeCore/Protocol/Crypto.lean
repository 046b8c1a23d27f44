import KoeCore.Protocol.Sodium

/-!
# Keys, session derivation and authenticated encryption

The functions of `koe_crypto.c` that the protocol layers call. Pointers that the C code writes
through are passed by value and returned, and a call whose only effect on success is a fresh value
returns an option.

`koeSessionDerive` hashes the X25519 secret with the two identity keys, initiator first, and splits
the digest: the first half is the initiator's sending key, the second its receiving key. Both roles
are read off one digest (`koeSessionDerive_initiator`, `koeSessionDerive_responder`), so two
parties that hash the same secret in opposite roles end with mirrored keys
(`mirrored_sessionOf`). The derivation erases the ephemeral secret as a side effect, on success
only.
-/

set_option autoImplicit false
set_option relaxedAutoImplicit false

namespace KoeCore

open ByteWire

/-- `koe_ephemeral_t`: an X25519 keypair for one handshake. -/
structure Ephemeral where
  pk : Block 32
  sk : Block 32
deriving DecidableEq

/-- `koe_session_t`: the keys of one direction each. -/
structure Session where
  txKey : Block 32
  rxKey : Block 32
deriving DecidableEq

/-- The record that `memset(.., 0, ..)` leaves. -/
def Ephemeral.zero : Ephemeral := ⟨Block.zero 32, Block.zero 32⟩

/-- The record that `memset(.., 0, ..)` leaves. -/
def Session.zero : Session := ⟨Block.zero 32, Block.zero 32⟩

/-- Two sessions are each other's mirror: each side sends under the key the other receives
under. -/
def Session.Mirrored (a b : Session) : Prop := a.txKey = b.rxKey ∧ a.rxKey = b.txKey

instance (a b : Session) : Decidable (a.Mirrored b) := inferInstanceAs (Decidable (_ ∧ _))

/-- `koe_ephemeral_generate`, given the secret that the generator draws, or `none` when
`crypto_box_keypair` fails. -/
def koeEphemeralGenerate (S : Sodium) (drawn : Option (Block 32)) (eph : Ephemeral) :
    ℤ × Ephemeral :=
  match drawn with
  | none => (-1, eph)
  | some sk => (0, ⟨S.cryptoBoxPublic sk, sk⟩)

/-! ### Session derivation -/

/-- The 64 bytes that the session keys are cut from: a digest set up for 32 bytes and read out at
64, over the shared secret and the two identity keys, initiator first. -/
def sessionDigest (S : Sodium) (dh initiatorPk responderPk : Block 32) : Block 64 :=
  S.cryptoGenerichash 32 (dh.toList ++ initiatorPk.toList ++ responderPk.toList) 64

/-- The keys that a digest gives to the party in the given role. -/
def sessionOf (initiator : Bool) (combined : Block 64) : Session :=
  if initiator then ⟨readAt 32 0 combined.toList, readAt 32 32 combined.toList⟩
  else ⟨readAt 32 32 combined.toList, readAt 32 0 combined.toList⟩

/-- The return code, and the session and the ephemeral keypair after the call. -/
def koeSessionDerive (S : Sodium) (sess : Session) (localEph : Ephemeral) (remoteEph : Block 32)
    (localId : Identity) (remotePk : Block 32) (initiator : Bool) : ℤ × Session × Ephemeral :=
  match S.cryptoScalarmult localEph.sk remoteEph with
  | none => (-1, sess, localEph)
  | some dh =>
    let localEph := { localEph with sk := Block.zero 32 }
    let combined :=
      if initiator then sessionDigest S dh localId.pk remotePk
      else sessionDigest S dh remotePk localId.pk
    (0, sessionOf initiator combined, localEph)

/-- The initiator's derivation. Assumes: the X25519 secret. -/
theorem koeSessionDerive_initiator {S : Sodium} {localEph : Ephemeral} {remoteEph dh : Block 32}
    (hdh : S.cryptoScalarmult localEph.sk remoteEph = some dh) (sess : Session)
    (localId : Identity) (remotePk : Block 32) :
    koeSessionDerive S sess localEph remoteEph localId remotePk true =
      (0, sessionOf true (sessionDigest S dh localId.pk remotePk),
        { localEph with sk := Block.zero 32 }) := by
  simp [koeSessionDerive, hdh]

/-- The responder's derivation. Assumes: the X25519 secret. -/
theorem koeSessionDerive_responder {S : Sodium} {localEph : Ephemeral} {remoteEph dh : Block 32}
    (hdh : S.cryptoScalarmult localEph.sk remoteEph = some dh) (sess : Session)
    (localId : Identity) (remotePk : Block 32) :
    koeSessionDerive S sess localEph remoteEph localId remotePk false =
      (0, sessionOf false (sessionDigest S dh remotePk localId.pk),
        { localEph with sk := Block.zero 32 }) := by
  simp [koeSessionDerive, hdh]

/-- A derivation succeeds exactly when X25519 does. -/
theorem koeSessionDerive_eq_zero_iff (S : Sodium) (sess : Session) (localEph : Ephemeral)
    (remoteEph : Block 32) (localId : Identity) (remotePk : Block 32) (initiator : Bool) :
    (koeSessionDerive S sess localEph remoteEph localId remotePk initiator).1 = 0 ↔
      (S.cryptoScalarmult localEph.sk remoteEph).isSome = true := by
  cases hdh : S.cryptoScalarmult localEph.sk remoteEph <;> simp [koeSessionDerive, hdh]

/-- One digest read in the two roles gives mirrored keys. -/
theorem mirrored_sessionOf (combined : Block 64) :
    (sessionOf true combined).Mirrored (sessionOf false combined) :=
  ⟨rfl, rfl⟩

/-! ### Authenticated encryption and signatures -/

/-- `KOE_TAG_LEN`. -/
def koeTagLen : ℕ := 16

/-- The ciphertext that `koe_encrypt` writes, or `none` for `-1`. -/
def koeEncrypt (S : Sodium) (plain : List UInt8) (nonce : Block 24) (key : Block 32) :
    Option (List UInt8) :=
  S.cryptoAeadEncrypt key nonce plain

/-- The plaintext that `koe_decrypt` writes, or `none` for `-1`. -/
def koeDecrypt (S : Sodium) (ct : List UInt8) (nonce : Block 24) (key : Block 32) :
    Option (List UInt8) :=
  if ct.length < koeTagLen then none else S.cryptoAeadDecrypt key nonce ct

/-- The signature that `koe_sign` writes, or `none` for `-1`. -/
def koeSign (S : Sodium) (msg : List UInt8) (id : Identity) : Option (Block 64) :=
  S.cryptoSignDetached id.sk msg

def koeVerify (S : Sodium) (sig : Block 64) (msg : List UInt8) (pk : Block 32) : ℤ :=
  if S.cryptoSignVerifyDetached sig msg pk then 0 else -1

theorem koeVerify_eq_zero_iff (S : Sodium) (sig : Block 64) (msg : List UInt8) (pk : Block 32) :
    koeVerify S sig msg pk = 0 ↔ S.cryptoSignVerifyDetached sig msg pk = true := by
  unfold koeVerify
  split_ifs with hverify <;> simp [hverify]

/-- What was encrypted under a key and nonce decrypts under them. Assumes: a correct AEAD. -/
theorem koeDecrypt_koeEncrypt {S : Sodium} (haead : S.Aead) {plain ct : List UInt8}
    {nonce : Block 24} {key : Block 32} (hct : koeEncrypt S plain nonce key = some ct) :
    koeDecrypt S ct nonce key = some plain := by
  have hlength : ¬ ct.length < koeTagLen := by
    rw [haead.length_sealed hct, koeTagLen]
    omega
  rw [koeDecrypt, if_neg hlength]
  exact haead.opens hct

/-- Decryption gives a plaintext exactly for its ciphertext. Assumes: a correct AEAD. -/
theorem koeDecrypt_eq_some_iff {S : Sodium} (haead : S.Aead) (plain ct : List UInt8)
    (nonce : Block 24) (key : Block 32) :
    koeDecrypt S ct nonce key = some plain ↔ koeEncrypt S plain nonce key = some ct := by
  constructor
  · intro hplain
    unfold koeDecrypt at hplain
    split_ifs at hplain with hshort
    exact haead.authentic hplain
  · exact koeDecrypt_koeEncrypt haead

end KoeCore
