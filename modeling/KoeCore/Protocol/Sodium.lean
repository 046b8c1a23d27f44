import KoeCore.Library.Wire
import Mathlib.Data.Int.Notation

/-!
# The libsodium interface

koe-core calls libsodium for every cryptographic operation, and libsodium is not part of the
repository. `Sodium` collects the calls the modelled functions make, as a parameter of the model.
A call that can fail returns an option, with `none` for the return code `-1`.

What a result needs of libsodium is stated as a hypothesis on this parameter, never built into it:
X25519 agreement on generated keys (`Sodium.KeyAgreement`), that a keypair verifies what it signed
(`Sodium.SignsFor`), that the AEAD opens what it sealed and nothing else (`Sodium.Aead`), that
its ciphertexts tell keys apart (`Sodium.SeparatesKeys`), and that 64 zero bytes are a signature of
nothing (`Sodium.RejectsZeroSig`).

`Sodium.transparent` is a stand-in with these properties and no secrecy whatsoever, on which
closed instances of the theorems can be evaluated.
-/

set_option autoImplicit false
set_option relaxedAutoImplicit false

namespace KoeCore

open ByteWire

/-- `koe_identity_t`: a long-term Ed25519 keypair. -/
structure Identity where
  pk : Block 32
  sk : Block 64
deriving DecidableEq

/-- The libsodium calls of the modelled functions. -/
structure Sodium where
  /-- `crypto_scalarmult`, on a secret and a public key. -/
  cryptoScalarmult : Block 32 → Block 32 → Option (Block 32)
  /-- The public key that `crypto_box_keypair` stores next to a secret. -/
  cryptoBoxPublic : Block 32 → Block 32
  /-- `crypto_generichash` without a key: the length given to `init`, the bytes of all updates in
  order, and the length given to `final`, which is the length of the digest. -/
  cryptoGenerichash : ℕ → List UInt8 → (n : ℕ) → Block n
  /-- `crypto_sign_detached`, on a secret key and a message. -/
  cryptoSignDetached : Block 64 → List UInt8 → Option (Block 64)
  /-- `crypto_sign_verify_detached(..) == 0`, on a signature, a message and a public key. -/
  cryptoSignVerifyDetached : Block 64 → List UInt8 → Block 32 → Bool
  /-- `crypto_aead_xchacha20poly1305_ietf_encrypt` without additional data, on a key, a nonce and
  a plaintext. -/
  cryptoAeadEncrypt : Block 32 → Block 24 → List UInt8 → Option (List UInt8)
  /-- `crypto_aead_xchacha20poly1305_ietf_decrypt` without additional data. -/
  cryptoAeadDecrypt : Block 32 → Block 24 → List UInt8 → Option (List UInt8)
  /-- `crypto_hash_sha256` of all updates in order. -/
  cryptoHashSha256 : List UInt8 → Block 32
  /-- The text that `sodium_bin2base64` writes, in the variant for URLs without padding. -/
  sodiumBin2base64 : List UInt8 → List UInt8

namespace Sodium

/-- X25519 on generated keys: neither side's call fails, and both compute the same secret. -/
def KeyAgreement (S : Sodium) : Prop :=
  ∀ a b, ∃ dh, S.cryptoScalarmult a (S.cryptoBoxPublic b) = some dh ∧
    S.cryptoScalarmult b (S.cryptoBoxPublic a) = some dh

/-- Ed25519 on one keypair: every message can be signed, and the signature verifies. -/
def SignsFor (S : Sodium) (id : Identity) : Prop :=
  ∀ msg, ∃ sig, S.cryptoSignDetached id.sk msg = some sig ∧
    S.cryptoSignVerifyDetached sig msg id.pk = true

/-- XChaCha20-Poly1305: sealing succeeds and adds a tag of 16 bytes, what was sealed opens, and
only what was sealed under the same key and nonce opens. -/
structure Aead (S : Sodium) : Prop where
  seals : ∀ key nonce plain, ∃ ct, S.cryptoAeadEncrypt key nonce plain = some ct
  length_sealed : ∀ {key nonce plain ct}, S.cryptoAeadEncrypt key nonce plain = some ct →
    ct.length = plain.length + 16
  opens : ∀ {key nonce plain ct}, S.cryptoAeadEncrypt key nonce plain = some ct →
    S.cryptoAeadDecrypt key nonce ct = some plain
  authentic : ∀ {key nonce plain ct}, S.cryptoAeadDecrypt key nonce ct = some plain →
    S.cryptoAeadEncrypt key nonce plain = some ct

/-- One plaintext that is sealed under one nonce to the same bytes was sealed under the same key. A
shorter plaintext than a key cannot tell all keys apart. -/
def SeparatesKeys (S : Sodium) : Prop :=
  ∀ {key other nonce plain ct}, 32 ≤ plain.length →
    S.cryptoAeadEncrypt key nonce plain = some ct →
      S.cryptoAeadEncrypt other nonce plain = some ct → key = other

/-- Ed25519 rejects the all-zero signature for every message and every key: its first half is a
point of small order, which verification refuses. -/
def RejectsZeroSig (S : Sodium) : Prop :=
  ∀ msg pk, S.cryptoSignVerifyDetached (Block.zero 64) msg pk = false

/-! ### A transparent stand-in -/

/-- A digest that depends on every byte of its input, with consecutive output bytes. -/
def mix (n : ℕ) (bytes : List UInt8) : Block n :=
  ⟨(List.range n).map fun i ↦
    bytes.foldl (fun state byte ↦ state * 31 + byte) 7 + UInt8.ofNat i, by simp⟩

/-- A point of the transparent curve: the byte 9 and the last 31 bytes of a block. -/
def transparentPoint (block : Block 32) : Block 32 := ⟨9 :: block.toList.tail, by simp⟩

/-- The transparent key agreement: the bytewise sum, as a point. -/
def transparentSum (a b : Block 32) : Block 32 :=
  transparentPoint ⟨List.zipWith (· ^^^ ·) a.toList b.toList, by simp⟩

/-- The cipher of the transparent AEAD: the key, added to the first bytes. -/
def transparentMask (key : Block 32) (bytes : List UInt8) : List UInt8 :=
  bytes.mapIdx fun i byte ↦ byte ^^^ key.toList.getD i 0

/-- The tag of the transparent AEAD. -/
def transparentTag (key : Block 32) (nonce : Block 24) (plain : List UInt8) : Block 16 :=
  mix 16 (key.toList ++ nonce.toList ++ plain)

/-- A stand-in for libsodium without secrecy. As in the real library, a degenerate public key makes
the key agreement fail while an all-zero secret does not, a secret signing key ends in its public
key, and a ciphertext is its tag longer than the plaintext. -/
def transparent : Sodium where
  cryptoScalarmult secret point :=
    if point = Block.zero 32 then none else some (transparentSum secret point)
  cryptoBoxPublic secret := transparentPoint secret
  cryptoGenerichash _ bytes n := mix n bytes
  cryptoSignDetached sk msg := some (mix 64 ((readAt 32 32 sk.toList).toList ++ msg))
  cryptoSignVerifyDetached sig msg pk := sig = mix 64 (pk.toList ++ msg)
  cryptoAeadEncrypt key nonce plain :=
    some (transparentMask key plain ++ (transparentTag key nonce plain).toList)
  cryptoAeadDecrypt key nonce ct :=
    let plain := transparentMask key (ct.take (ct.length - 16))
    if ct = transparentMask key plain ++ (transparentTag key nonce plain).toList then some plain
    else none
  cryptoHashSha256 bytes := mix 32 bytes
  sodiumBin2base64 bytes := List.replicate ((4 * bytes.length + 2) / 3) 0x41

theorem transparentSum_comm (a b : Block 32) :
    transparentSum a (transparentPoint b) = transparentSum b (transparentPoint a) := by
  apply List.Vector.eq
  simp only [transparentSum, transparentPoint, List.Vector.toList_mk, List.tail_zipWith,
    List.tail_cons]
  rw [List.zipWith_comm_of_comm fun x y ↦ UInt8.xor_comm x y]

theorem transparentPoint_ne_zero (block : Block 32) : transparentPoint block ≠ Block.zero 32 := by
  intro hzero
  have hhead := congrArg (fun point : Block 32 ↦ point.toList.head?) hzero
  simp [transparentPoint, Block.toList_zero, List.replicate_succ] at hhead

theorem transparent_scalarmult_point (secret block : Block 32) :
    transparent.cryptoScalarmult secret (transparentPoint block) =
      some (transparentSum secret (transparentPoint block)) := by
  simp only [transparent, if_neg (transparentPoint_ne_zero block)]

theorem transparent_keyAgreement : transparent.KeyAgreement := by
  intro a b
  refine ⟨transparentSum a (transparentPoint b), transparent_scalarmult_point a b, ?_⟩
  rw [transparentSum_comm]
  exact transparent_scalarmult_point b a

theorem transparent_signsFor {id : Identity} (hpk : readAt 32 32 id.sk.toList = id.pk) :
    transparent.SignsFor id := by
  intro msg
  refine ⟨mix 64 (id.pk.toList ++ msg), ?_, ?_⟩
  · simp only [transparent, hpk]
  · simp only [transparent, decide_true]

/-- A keypair of the stand-in, for each byte. -/
def transparentIdentity (byte : UInt8) : Identity where
  pk := List.Vector.replicate 32 byte
  sk := List.Vector.replicate 64 byte

theorem transparentIdentity_signsFor (byte : UInt8) :
    transparent.SignsFor (transparentIdentity byte) := by
  apply transparent_signsFor
  have hsk : (transparentIdentity byte).sk.toList =
      List.replicate 32 byte ++ ((transparentIdentity byte).pk.toList ++ []) := rfl
  exact readAt_of_eq (List.replicate 32 byte) _ hsk (by simp)

/-- Consecutive bytes of a digest differ, so no digest is all zero. -/
theorem mix_ne_zero (bytes : List UInt8) : mix 64 bytes ≠ Block.zero 64 := by
  intro hzero
  have hfirst := congrArg (fun block : Block 64 ↦ block.toList[0]?) hzero
  have hsecond := congrArg (fun block : Block 64 ↦ block.toList[1]?) hzero
  simp only [mix, Block.toList_zero, List.Vector.toList_mk, List.getElem?_map,
    List.getElem?_range (show 0 < 64 by omega), List.getElem?_range (show 1 < 64 by omega),
    List.getElem?_replicate, Option.map_some] at hfirst hsecond
  grind

theorem transparent_rejectsZeroSig : transparent.RejectsZeroSig := by
  intro msg pk
  simp only [transparent, decide_eq_false_iff_not]
  exact (mix_ne_zero _).symm

@[simp] theorem length_transparentMask (key : Block 32) (bytes : List UInt8) :
    (transparentMask key bytes).length = bytes.length := by
  simp [transparentMask]

@[simp] theorem transparentMask_transparentMask (key : Block 32) (bytes : List UInt8) :
    transparentMask key (transparentMask key bytes) = bytes := by
  apply List.ext_getElem
  · simp
  · intro i hmasked hbytes
    simp only [transparentMask, List.getElem_mapIdx]
    rw [UInt8.xor_assoc, UInt8.xor_self, UInt8.xor_zero]

theorem transparent_aead : transparent.Aead where
  seals := fun _ _ _ ↦ ⟨_, rfl⟩
  length_sealed := by
    intro key nonce plain ct hct
    obtain rfl := Option.some.inj hct
    simp
  opens := by
    intro key nonce plain ct hct
    obtain rfl := Option.some.inj hct
    simp [transparent]
  authentic := by
    intro key nonce plain ct hplain
    simp only [transparent] at hplain ⊢
    split_ifs at hplain with htag
    obtain rfl := Option.some.inj hplain
    exact congrArg some htag.symm

theorem transparent_separatesKeys : transparent.SeparatesKeys := by
  intro key other nonce plain ct hlength hkey hother
  have hmask : transparentMask key plain = transparentMask other plain := by
    have hsealed := Option.some.inj (hkey.trans hother.symm)
    exact (List.append_inj hsealed (by simp)).1
  -- The masks agree at each of the first 32 positions, hence so do the keys.
  apply List.Vector.eq
  apply List.ext_getElem
  · simp
  · intro i hi hi'
    have hplain : i < plain.length := by
      rw [List.Vector.toList_length] at hi
      omega
    have hbyte := List.getElem_of_eq hmask (by simpa using hplain)
    simp only [transparentMask, List.getElem_mapIdx] at hbyte
    have hbytes := (UInt8.xor_right_inj plain[i]).mp hbyte
    simp only [List.getD_eq_getElem?_getD, List.getElem?_eq_getElem hi,
      List.getElem?_eq_getElem hi', Option.getD_some] at hbytes
    exact hbytes

end Sodium

end KoeCore
