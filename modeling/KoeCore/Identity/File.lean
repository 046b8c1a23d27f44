import KoeCore.Protocol.Crypto

/-!
# Identities and their files

The identity part of `koe_crypto.c`: key pairs, the short id of a public key, and the file in which
a key pair is kept under a passphrase. `crypto_pwhash` is a parameter, as libsodium's other calls
are, and a file system is a map from paths to contents. Strings are lists of bytes without their
terminator.

`koeIdentityLoad_cases` says what a load can do: it fails and leaves the caller's identity alone, or
it returns 0. `koeIdentityLoad_sealed` says that a file in the layout of `koe_identity_save` gives
back the keys that were sealed in it. `exists_sealed_of_koeIdentitySave` and
`exists_layout_of_koeIdentityLoad` say what was written and what was read by calls that return 0.
-/

set_option autoImplicit false
set_option relaxedAutoImplicit false

namespace KoeCore

open ByteWire

/-- `crypto_pwhash` with the interactive limits of Argon2id: a passphrase and a salt of
`crypto_pwhash_SALTBYTES` bytes give a key. -/
abbrev Pwhash := List UInt8 → Block 16 → Option (Block 32)

/-- A stand-in for `crypto_pwhash` that gives one key for everything. -/
def plainPwhash : Pwhash := fun _ _ ↦ some (Block.zero 32)

/-- The contents of the files that exist. -/
abbrev Files := List UInt8 → Option (List UInt8)

/-- The string that `strncpy(dst, src, n)` leaves in a zeroed array of more than `n` bytes. -/
def strncpy (n : ℕ) (src : List UInt8) : List UInt8 := src.take n

/-- An identity after `koe_memzero`. -/
def Identity.erased : Identity := ⟨Block.zero 32, Block.zero 64⟩

/-- The return code, and the identity after the call; `drawn` is what `crypto_sign_keypair`
gives. -/
def koeIdentityGenerate (drawn : Option Identity) (id : Identity) : ℤ × Identity :=
  match drawn with
  | some keys => (0, keys)
  | none => (-1, id)

/-! ### The identity file -/

/-- The bytes of `"KOEID"`. -/
def identityMagic : List UInt8 := [0x4b, 0x4f, 0x45, 0x49, 0x44]

/-- What `koe_identity_save` takes from its environment: the salt and the nonce drawn, and whether
the file can be opened. -/
structure SaveEnv where
  salt : Block 16
  nonce : Block 24
  opens : Bool

section File

variable (S : Sodium) (pwhash : Pwhash)

/-- The return code, and the files after the call. -/
def koeIdentitySave (env : SaveEnv) (files : Files) (id : Identity) (path passphrase : List UInt8) :
    ℤ × Files :=
  match pwhash passphrase env.salt with
  | none => (-1, files)
  | some encKey =>
    match koeEncrypt S (id.pk.toList ++ id.sk.toList) env.nonce encKey with
    | none => (-1, files)
    | some ct =>
      if !env.opens then (-1, files)
      else
        (0, Function.update files path
          (some (identityMagic ++ env.salt.toList ++ env.nonce.toList ++ ct)))

/-- The return code, and the identity after the call. -/
def koeIdentityLoad (files : Files) (id : Identity) (path passphrase : List UInt8) :
    ℤ × Identity :=
  match files path with
  | none => (-1, id)
  | some bytes =>
    if bytes.length < 5 then (-1, id)
    else if bytes.take 5 ≠ identityMagic then (-1, id)
    else if bytes.length < 5 + 16 + 24 + (96 + koeTagLen) then (-1, id)
    else
      let salt : Block 16 := readAt 16 5 bytes
      let nonce : Block 24 := readAt 24 21 bytes
      let ct := (bytes.drop 45).take (96 + koeTagLen)
      match pwhash passphrase salt with
      | none => (-1, id)
      | some encKey =>
        match koeDecrypt S ct nonce encKey with
        | none => (-1, id)
        | some plain => (0, ⟨readAt 32 0 plain, readAt 64 32 plain⟩)

variable {S pwhash} in
/-- A save that fails writes nothing. -/
theorem koeIdentitySave_files {env : SaveEnv} {files : Files} {id : Identity}
    {path passphrase : List UInt8}
    (hfails : (koeIdentitySave S pwhash env files id path passphrase).1 ≠ 0) :
    (koeIdentitySave S pwhash env files id path passphrase).2 = files := by
  unfold koeIdentitySave at hfails ⊢
  split at hfails
  · rfl
  split at hfails
  · rfl
  split_ifs at hfails ⊢
  · rfl
  · exact absurd rfl hfails

variable {S pwhash} in
/-- What a save that returns 0 has written. Assumes: the return code 0. -/
theorem exists_sealed_of_koeIdentitySave {env : SaveEnv} {files : Files} {id : Identity}
    {path passphrase : List UInt8}
    (hsaved : (koeIdentitySave S pwhash env files id path passphrase).1 = 0) :
    ∃ (encKey : Block 32) (ct : List UInt8), pwhash passphrase env.salt = some encKey ∧
      koeEncrypt S (id.pk.toList ++ id.sk.toList) env.nonce encKey = some ct ∧
      (koeIdentitySave S pwhash env files id path passphrase).2 = Function.update files path
        (some (identityMagic ++ env.salt.toList ++ env.nonce.toList ++ ct)) := by
  have hfails : ¬ (-1 : ℤ) = 0 := by decide
  unfold koeIdentitySave at hsaved ⊢
  rcases hkey : pwhash passphrase env.salt with _ | encKey
  · rw [hkey] at hsaved
    exact absurd hsaved hfails
  simp only [hkey] at hsaved ⊢
  rcases hct : koeEncrypt S (id.pk.toList ++ id.sk.toList) env.nonce encKey with _ | ct
  · rw [hct] at hsaved
    exact absurd hsaved hfails
  simp only [hct] at hsaved ⊢
  refine ⟨encKey, ct, rfl, hct, ?_⟩
  rcases hopens : env.opens with _ | _
  · rw [hopens] at hsaved
    exact absurd hsaved hfails
  · rfl

/-- A load fails and changes nothing, or returns 0. -/
theorem koeIdentityLoad_cases (files : Files) (id : Identity) (path passphrase : List UInt8) :
    koeIdentityLoad S pwhash files id path passphrase = (-1, id) ∨
      (koeIdentityLoad S pwhash files id path passphrase).1 = 0 := by
  unfold koeIdentityLoad
  rcases files path with _ | bytes
  · exact Or.inl rfl
  dsimp only
  split_ifs with hshort hmagic hlength
  · exact Or.inl rfl
  · exact Or.inl rfl
  · exact Or.inl rfl
  rcases pwhash passphrase (readAt 16 5 bytes) with _ | encKey
  · exact Or.inl rfl
  dsimp only
  rcases koeDecrypt S ((bytes.drop 45).take (96 + koeTagLen)) (readAt 24 21 bytes) encKey with
    _ | plain
  · exact Or.inl rfl
  · exact Or.inr rfl

/-- Assumes: a file in the layout of a save, the key that the passphrase and its salt give, and the
keys as the plaintext under it. -/
theorem koeIdentityLoad_layout {files : Files} {keys : Identity} {salt : Block 16}
    {nonce : Block 24} {encKey : Block 32} {ct path passphrase : List UInt8}
    (hfile : files path = some (identityMagic ++ salt.toList ++ nonce.toList ++ ct))
    (hctLength : ct.length = 96 + koeTagLen) (hkey : pwhash passphrase salt = some encKey)
    (hplain : koeDecrypt S ct nonce encKey = some (keys.pk.toList ++ keys.sk.toList))
    (id : Identity) : koeIdentityLoad S pwhash files id path passphrase = (0, keys) := by
  let bytes := identityMagic ++ salt.toList ++ nonce.toList ++ ct
  have hbytes : bytes = identityMagic ++ (salt.toList ++ (nonce.toList ++ ct)) := by simp [bytes]
  have hlength : bytes.length = 5 + 16 + 24 + (96 + koeTagLen) := by
    simp only [bytes, List.length_append, hctLength, List.Vector.toList_length]
    rfl
  have hmagic : bytes.take 5 = identityMagic := by
    rw [hbytes, show 5 = identityMagic.length from rfl, List.take_left]
  have hsalt : readAt 16 5 bytes = salt := readAt_of_eq identityMagic salt hbytes rfl
  have hfront : bytes = (identityMagic ++ salt.toList) ++ (nonce.toList ++ ct) := by simp [bytes]
  have hnonce : readAt 24 21 bytes = nonce :=
    readAt_of_eq (identityMagic ++ salt.toList) nonce hfront (by simp [identityMagic])
  have hdrop : (bytes.drop 45).take (96 + koeTagLen) = ct := by
    have hoff : (identityMagic ++ salt.toList ++ nonce.toList).length = 45 := by
      simp [identityMagic]
    rw [← hctLength, ← hoff, List.drop_left, List.take_length]
  have hpk : readAt 32 0 (keys.pk.toList ++ keys.sk.toList) = keys.pk :=
    readAt_of_eq [] keys.pk rfl rfl
  have hend : keys.pk.toList ++ keys.sk.toList = keys.pk.toList ++ (keys.sk.toList ++ []) := by simp
  have hsk : readAt 64 32 (keys.pk.toList ++ keys.sk.toList) = keys.sk :=
    readAt_of_eq keys.pk.toList keys.sk hend (by simp)
  have hread : files path = some bytes := hfile
  simp only [koeIdentityLoad, hread, hmagic, hsalt, hnonce, hdrop, hkey, hplain, hpk, hsk]
  rw [if_neg (by omega), if_neg (by simp), if_neg (by omega)]

/-- Assumes: a file in the layout of a save, and the key that the passphrase and its salt give. -/
theorem koeIdentityLoad_sealed (haead : S.Aead) {files : Files} {keys : Identity} {salt : Block 16}
    {nonce : Block 24} {encKey : Block 32} {ct path passphrase : List UInt8}
    (hfile : files path = some (identityMagic ++ salt.toList ++ nonce.toList ++ ct))
    (hkey : pwhash passphrase salt = some encKey)
    (hct : koeEncrypt S (keys.pk.toList ++ keys.sk.toList) nonce encKey = some ct)
    (id : Identity) : koeIdentityLoad S pwhash files id path passphrase = (0, keys) := by
  have hctLength : ct.length = 96 + koeTagLen := by
    have hsealed := haead.length_sealed hct
    simpa [koeTagLen] using hsealed
  have hplain : koeDecrypt S ct nonce encKey = some (keys.pk.toList ++ keys.sk.toList) :=
    koeDecrypt_koeEncrypt haead hct
  exact koeIdentityLoad_layout S pwhash hfile hctLength hkey hplain id

variable {S pwhash} in
/-- What a load that returns 0 has read: a file that starts in the layout of a save, with a
ciphertext that opens under the key of the passphrase and the salt. Assumes: the return code 0. -/
theorem exists_layout_of_koeIdentityLoad {files : Files} {id : Identity}
    {path passphrase : List UInt8}
    (hload : (koeIdentityLoad S pwhash files id path passphrase).1 = 0) :
    ∃ (salt : Block 16) (nonce : Block 24) (ct rest : List UInt8) (encKey : Block 32),
      files path = some (identityMagic ++ salt.toList ++ nonce.toList ++ ct ++ rest) ∧
        ct.length = 96 + koeTagLen ∧ pwhash passphrase salt = some encKey ∧
        koeDecrypt S ct nonce encKey ≠ none := by
  have hfails : ¬ (-1 : ℤ) = 0 := by decide
  unfold koeIdentityLoad at hload
  rcases hfile : files path with _ | bytes
  · rw [hfile] at hload
    exact absurd hload hfails
  simp only [hfile] at hload
  split_ifs at hload with hshort hmagic hlength
  · exact absurd hload hfails
  · exact absurd hload hfails
  · exact absurd hload hfails
  rcases hkey : pwhash passphrase (readAt 16 5 bytes) with _ | encKey
  · rw [hkey] at hload
    exact absurd hload hfails
  simp only [hkey] at hload
  have hplain : koeDecrypt S ((bytes.drop 45).take (96 + koeTagLen)) (readAt 24 21 bytes) encKey ≠
      none := by
    intro hnone
    rw [hnone] at hload
    exact absurd hload hfails
  have hpiece (off n : ℕ) : (bytes.drop off).take n ++ bytes.drop (off + n) = bytes.drop off := by
    rw [← List.drop_drop, List.take_append_drop]
  refine ⟨readAt 16 5 bytes, readAt 24 21 bytes, (bytes.drop 45).take (96 + koeTagLen),
    bytes.drop (45 + (96 + koeTagLen)), encKey, congrArg some ?_, ?_, hkey, hplain⟩
  · rw [← not_not.mp hmagic, toList_readAt (by omega), toList_readAt (by omega), List.append_assoc,
      hpiece 45, List.append_assoc, hpiece 21, List.append_assoc, hpiece 5, List.take_append_drop]
  · rw [List.length_take, List.length_drop]
    omega

end File

/-! ### Short ids -/

/-- `KOE_SHORT_ID_LEN`. -/
def koeShortIdLen : ℕ := 16

/-- The characters of `B58_ALPHA`. -/
def b58Alpha : List UInt8 :=
  "123456789ABCDEFGHJKLMNPQRSTUVWXYZabcdefghijkmnopqrstuvwxyz".toList.map fun char ↦
    UInt8.ofNat char.toNat

/-- The `do` loop of `koe_identity_short_id`: the digits are written from the end, as long as there
is a position in front and digits are left. It returns the position reached and the digits. -/
def shortIdLoop : ℕ → UInt64 → List UInt8 → ℕ × List UInt8
  | 0, _, digits => (0, digits)
  | pos + 1, val, digits =>
    let digits := byteAt (val % 58).toNat b58Alpha :: digits
    if val / 58 ≠ 0 then shortIdLoop pos (val / 58) digits else (pos, digits)

/-- The characters of the short id. -/
def koeIdentityShortId (pk : Block 32) : List UInt8 :=
  let val : UInt64 := (pk.toList.take 8).foldl (fun val byte ↦ val <<< 8 ||| byte.toUInt64) 0
  let (pos, digits) := shortIdLoop (koeShortIdLen - 1) val []
  -- Padded with the character of digit zero.
  strncpy (koeShortIdLen - 1) (List.replicate pos 0x31 ++ digits)

end KoeCore
