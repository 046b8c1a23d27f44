import KoeCore.Account.Registry
import KoeCore.Protocol.Packet
import KoeCore.Protocol.Sodium

/-!
# Ghost mode, secret chats and travel mode

`koe_ghost.c`. Ghost mode is a record of flags, secret chats are a static flag and a file, and
travel mode is a file with the hash of a recovery PIN. What the system answers is a parameter of
each call (`GhostEnv`): whether a file opens, is made and is removed, and how much of what is
written arrives.

`Privacy` is the module as it behaves, without files and hashes in them: secret chats are open or
not, and travel mode is off or on with a PIN. `koeGhost_refines` compares the two over all runs in
which the system does what it is asked for. It shows what the PINs are good for. That of the secret
chats is never looked at, and that of travel mode is the one of the last call that turned it on,
which asks for no other; so a PIN of one's own turns travel mode off in two calls. A wipe whose
writes fail goes on, and removes the file all the same; when it cannot be removed either, what the
writes did not reach is left.
-/

set_option autoImplicit false
set_option relaxedAutoImplicit false

namespace KoeCore

open ByteWire

/-! ### Ghost mode -/

/-- `koe_ghost_state_t`. -/
structure GhostState where
  active : ℤ
  suppressReadReceipts : ℤ
  suppressTyping : ℤ
deriving DecidableEq

def koeGhostEnable (_ : GhostState) : GhostState := ⟨1, 1, 1⟩

def koeGhostDisable (_ : GhostState) : GhostState := ⟨0, 0, 0⟩

def isDirectMsg (type : UInt8) : Bool :=
  type == PacketType.msg.code || type == PacketType.audio.code || type == PacketType.hello.code ||
    type == PacketType.helloAck.code

def koeGhostShouldRespond (ghost : GhostState) (packetType : UInt8) : ℤ :=
  if ghost.active = 0 then 1 else if isDirectMsg packetType then 1 else 0

/-! ### Secret chats and travel mode -/

/-- What the system answers: whether a file that exists opens, whether one is made, how many bytes
of it are written, how many each write of a wipe writes, whether it is removed; the bytes that are
drawn, and what an array holds before it is read into. -/
structure GhostEnv where
  opens : Bool
  creates : Bool
  wrote : ℕ
  zeroed : ℕ → ℕ
  removes : Bool
  salt : Block 32
  leftover : Block 32

def secretPath (dataDir : List UInt8) : List UInt8 := pathBuf (dataDir ++ ascii "/secret.koe")

def travelPath (dataDir : List UInt8) : List UInt8 := pathBuf (dataDir ++ ascii "/travel.koe")

/-- `"KOESEC\x01"`. -/
def secretMagic : List UInt8 := ascii "KOESEC" ++ [1]

/-- `"KOETRV\x01"`. -/
def travelMagic : List UInt8 := ascii "KOETRV" ++ [1]

/-- A file that is opened. -/
def GhostEnv.opened (env : GhostEnv) (files : Files) (path : List UInt8) : Option (List UInt8) :=
  if env.opens then files path else none

/-- The return code, `s_secret_unlocked` and the files after the call. A file that does not open is
made anew. -/
def koeSecretChatUnlock (env : GhostEnv) (files : Files) (_pin dataDir : List UInt8) :
    ℤ × ℤ × Files :=
  match env.opened files (secretPath dataDir) with
  | none =>
    (0, 1, if env.creates then
      Function.update files (secretPath dataDir)
        (some ((secretMagic ++ env.salt.toList).take env.wrote))
    else files)
  | some _ => (0, 1, files)

/-- The loop of `koe_secret_chat_wipe`: the number of the round, the bytes left to write, the
position in the file, and its bytes. A short write leaves the position where it got to, and is
counted as if it were whole. The loop has fewer rounds than there are bytes. -/
def wipeLoop (zeroed : ℕ → ℕ) : ℕ → ℕ → ℕ → ℕ → List UInt8 → List UInt8
  | 0, _, _, _, bytes => bytes
  | rounds + 1, i, sz, pos, bytes =>
    if sz = 0 then bytes
    else
      let w := if 512 < sz then 512 else sz
      let n := min (zeroed i) w
      wipeLoop zeroed rounds (i + 1) (sz - w) (pos + n)
        (bytes.take pos ++ List.replicate n 0 ++ bytes.drop (pos + n))

/-- The return code, `s_secret_unlocked` and the files after the call. -/
def koeSecretChatWipe (env : GhostEnv) (files : Files) (dataDir : List UInt8) : ℤ × ℤ × Files :=
  match env.opened files (secretPath dataDir) with
  | none => (0, 0, files)
  | some bytes =>
    let wiped := wipeLoop env.zeroed bytes.length 0 bytes.length 0 bytes
    (0, 0, Function.update files (secretPath dataDir) (if env.removes then none else some wiped))

/-- The hash of a recovery PIN. -/
def pinHash (S : Sodium) (pin : List UInt8) : Block 32 := S.cryptoGenerichash 32 pin 32

/-- The return code, and the files after the call. -/
def koeTravelModeEnable (S : Sodium) (env : GhostEnv) (files : Files) (pin dataDir : List UInt8) :
    ℤ × Files :=
  if !env.creates then (-1, files)
  else
    (0, Function.update files (travelPath dataDir)
      (some ((travelMagic ++ (pinHash S pin).toList).take env.wrote)))

/-- The return code, and the files after the call. The magic is read and not compared; what a short
file lacks is what was in the array before. -/
def koeTravelModeDisable (S : Sodium) (env : GhostEnv) (files : Files) (pin dataDir : List UInt8) :
    ℤ × Files :=
  match env.opened files (travelPath dataDir) with
  | none => (-1, files)
  | some bytes =>
    let read := (bytes.drop 7).take 32
    if read ++ env.leftover.toList.drop read.length ≠ (pinHash S pin).toList then (-1, files)
    else
      (0, if env.removes then Function.update files (travelPath dataDir) none else files)

def koeTravelModeActive (env : GhostEnv) (files : Files) (dataDir : List UInt8) : ℤ :=
  if (env.opened files (travelPath dataDir)).isSome then 1 else 0

/-! ### Wiping -/

/-- What a wipe has made of a file when it has got to a position. -/
def erasedUpTo (pos : ℕ) (secret : List UInt8) : List UInt8 :=
  List.replicate pos 0 ++ secret.drop pos

theorem erasedUpTo_add (pos n : ℕ) (secret : List UInt8) :
    (erasedUpTo pos secret).take pos ++ List.replicate n 0 ++
      (erasedUpTo pos secret).drop (pos + n) = erasedUpTo (pos + n) secret := by
  have htake : (erasedUpTo pos secret).take pos = List.replicate pos 0 :=
    List.take_left' List.length_replicate
  have hdrop : (erasedUpTo pos secret).drop (pos + n) = secret.drop (pos + n) := by
    rw [← List.drop_drop, ← List.drop_drop]
    exact congrArg (List.drop n) (List.drop_left' List.length_replicate)
  rw [htake, hdrop, List.replicate_append_replicate, erasedUpTo]

/-- How far a wipe gets: no further than the file goes, and to its end if every write is whole.
Assumes: as many bytes to write as there are behind the position at most, and rounds enough. -/
theorem wipeLoop_eq (zeroed : ℕ → ℕ) (secret : List UInt8) (rounds : ℕ) :
    ∀ i sz pos : ℕ, sz ≤ rounds → pos + sz ≤ secret.length →
      ∃ reached, reached ≤ pos + sz ∧ ((∀ k, 512 ≤ zeroed k) → reached = pos + sz) ∧
        wipeLoop zeroed rounds i sz pos (erasedUpTo pos secret) = erasedUpTo reached secret := by
  induction rounds with
  | zero =>
    intro i sz pos hrounds hroom
    obtain rfl : sz = 0 := Nat.le_zero.mp hrounds
    exact ⟨pos, Nat.le_refl _, fun _ ↦ rfl, rfl⟩
  | succ rounds ih =>
    intro i sz pos hrounds hroom
    rw [wipeLoop]
    by_cases hdone : sz = 0
    · rw [if_pos hdone, hdone]
      exact ⟨pos, Nat.le_refl _, fun _ ↦ rfl, rfl⟩
    · obtain ⟨w, hw, hpositive, hle, hblock⟩ :
          ∃ w, (if 512 < sz then 512 else sz) = w ∧ 0 < w ∧ w ≤ sz ∧ w ≤ 512 := by
        refine ⟨_, rfl, ?_, ?_, ?_⟩
        all_goals split_ifs <;> omega
      rw [if_neg hdone, hw]
      dsimp only
      rw [erasedUpTo_add]
      have hmin : min (zeroed i) w ≤ w := Nat.min_le_right _ _
      obtain ⟨reached, hreached, hwhole, heq⟩ :=
        ih (i + 1) (sz - w) (pos + min (zeroed i) w) (by omega) (by omega)
      refine ⟨reached, by omega, fun hall ↦ ?_, heq⟩
      have hmin' : min (zeroed i) w = w := Nat.min_eq_right (hblock.trans (hall i))
      rw [hwhole hall, hmin']
      omega

/-! ### The module as it behaves -/

/-- Ghost mode, whether secret chats are open, the file of the secrets, and the PIN of travel mode
when it is on. -/
structure Privacy where
  ghost : Bool
  unlocked : Bool
  secret : Option (List UInt8)
  pin : Option (Block 32)

/-- The calls of the module. -/
inductive PrivacyCall
  | ghostEnable
  | ghostDisable
  | unlock (pin : List UInt8) (salt : Block 32)
  | lock
  | wipe
  | travelEnable (pin : List UInt8)
  | travelDisable (pin : List UInt8) (leftover : Block 32)

/-- What a call returns, `0` if it returns nothing, and what it does. -/
def PrivacyCall.run (S : Sodium) (privacy : Privacy) : PrivacyCall → ℤ × Privacy
  | ghostEnable => (0, { privacy with ghost := true })
  | ghostDisable => (0, { privacy with ghost := false })
  | unlock _ salt =>
    (0, { privacy with
      unlocked := true
      secret := some (privacy.secret.getD (secretMagic ++ salt.toList)) })
  | lock => (0, { privacy with unlocked := false })
  | wipe => (0, { privacy with unlocked := false, secret := none })
  | travelEnable pin => (0, { privacy with pin := some (pinHash S pin) })
  | travelDisable pin _ =>
    if privacy.pin = some (pinHash S pin) then (0, { privacy with pin := none }) else (-1, privacy)

/-! ### The code -/

/-- The record of ghost mode, `s_secret_unlocked`, and the files. -/
structure GhostVars where
  ghost : GhostState
  unlocked : ℤ
  files : Files

/-- A system that does what it is asked for. -/
def GhostEnv.obliging (salt leftover : Block 32) : GhostEnv :=
  ⟨true, true, 39, fun _ ↦ 512, true, salt, leftover⟩

/-- What a call returns, `0` if it returns nothing, and what it does, in a data directory. -/
def PrivacyCall.runCode (S : Sodium) (dataDir : List UInt8) (vars : GhostVars) :
    PrivacyCall → ℤ × GhostVars
  | ghostEnable => (0, { vars with ghost := koeGhostEnable vars.ghost })
  | ghostDisable => (0, { vars with ghost := koeGhostDisable vars.ghost })
  | unlock pin salt =>
    let result := koeSecretChatUnlock (.obliging salt (Block.zero 32)) vars.files pin dataDir
    (result.1, { vars with unlocked := result.2.1, files := result.2.2 })
  | lock => (0, { vars with unlocked := 0 })
  | wipe =>
    let result := koeSecretChatWipe (.obliging (Block.zero 32) (Block.zero 32)) vars.files dataDir
    (result.1, { vars with unlocked := result.2.1, files := result.2.2 })
  | travelEnable pin =>
    let result := koeTravelModeEnable S (.obliging (Block.zero 32) (Block.zero 32)) vars.files pin
      dataDir
    (result.1, { vars with files := result.2 })
  | travelDisable pin leftover =>
    let result := koeTravelModeDisable S (.obliging (Block.zero 32) leftover) vars.files pin dataDir
    (result.1, { vars with files := result.2 })

/-- The file of travel mode with a PIN. -/
def travelFile (pin : Block 32) : List UInt8 := travelMagic ++ pin.toList

/-- The call with another PIN for the secret chats. -/
def PrivacyCall.repin (other : List UInt8 → List UInt8) : PrivacyCall → PrivacyCall
  | unlock pin salt => unlock (other pin) salt
  | call => call

/-- The variables and the files are those of the module as it behaves. -/
structure GhostVars.Refines (dataDir : List UInt8) (vars : GhostVars) (privacy : Privacy) :
    Prop where
  ghost : vars.ghost = if privacy.ghost then ⟨1, 1, 1⟩ else ⟨0, 0, 0⟩
  unlocked : vars.unlocked = if privacy.unlocked then 1 else 0
  secret : vars.files (secretPath dataDir) = privacy.secret
  travel : vars.files (travelPath dataDir) = privacy.pin.map travelFile

section Calls

variable {S : Sodium} {dataDir : List UInt8} {vars : GhostVars} {privacy : Privacy}

/-- The two files are different. Assumes: a data directory whose files have their full names. -/
theorem secretPath_ne_travelPath (hdir : dataDir.length ≤ 500) :
    secretPath dataDir ≠ travelPath dataDir := by
  have hsecret : secretPath dataDir = dataDir ++ ascii "/secret.koe" := by
    refine List.take_of_length_le ?_
    rw [List.length_append]
    exact Nat.add_le_add_right hdir _
  have htravel : travelPath dataDir = dataDir ++ ascii "/travel.koe" := by
    refine List.take_of_length_le ?_
    rw [List.length_append]
    exact Nat.add_le_add_right hdir _
  rw [hsecret, htravel]
  intro hpaths
  exact absurd (List.append_cancel_left hpaths) (by decide)

theorem length_travelFile (pin : Block 32) : (travelFile pin).length = 39 := by
  rw [travelFile, List.length_append, pin.toList_length]
  rfl

/-- What is read of a whole file is its PIN. -/
theorem read_travelFile (pin leftover : Block 32) :
    let read := ((travelFile pin).drop 7).take 32
    read ++ leftover.toList.drop read.length = pin.toList := by
  intro read
  have hread : read = pin.toList := by
    have hdrop : (travelFile pin).drop 7 = pin.toList := List.drop_left' rfl
    rw [show read = ((travelFile pin).drop 7).take 32 from rfl, hdrop]
    exact List.take_of_length_le (Nat.le_of_eq pin.toList_length)
  rw [hread, pin.toList_length, List.drop_of_length_le (Nat.le_of_eq leftover.toList_length),
    List.append_nil]

theorem GhostEnv.opened_obliging (salt leftover : Block 32) (files : Files) (path : List UInt8) :
    (GhostEnv.obliging salt leftover).opened files path = files path := by
  rw [GhostEnv.opened, GhostEnv.obliging, if_pos rfl]

/-- Assumes: the file of the secrets. -/
theorem koeSecretChatUnlock_obliging {files : Files} {secret : Option (List UInt8)}
    (hsecret : files (secretPath dataDir) = secret) (pin : List UInt8) (salt leftover : Block 32) :
    koeSecretChatUnlock (.obliging salt leftover) files pin dataDir =
      (0, 1, Function.update files (secretPath dataDir)
        (some (secret.getD (secretMagic ++ salt.toList)))) := by
  have hlength : (secretMagic ++ salt.toList).length ≤ 39 := by
    rw [List.length_append, salt.toList_length]
    exact Nat.le_refl _
  rw [koeSecretChatUnlock, GhostEnv.opened_obliging, hsecret]
  cases secret with
  | none =>
    simp only [GhostEnv.obliging, if_true, Option.getD_none, List.take_of_length_le hlength]
  | some bytes =>
    simp only [Option.getD_some]
    rw [← hsecret, Function.update_eq_self]

theorem koeSecretChatWipe_obliging (files : Files) (salt leftover : Block 32) :
    koeSecretChatWipe (.obliging salt leftover) files dataDir =
      (0, 0, Function.update files (secretPath dataDir) none) := by
  rw [koeSecretChatWipe, GhostEnv.opened_obliging]
  cases hsecret : files (secretPath dataDir) with
  | none => simp only [← hsecret, Function.update_eq_self]
  | some bytes => simp only [GhostEnv.obliging, if_true]

theorem koeTravelModeEnable_obliging (files : Files) (pin : List UInt8) (salt leftover : Block 32) :
    koeTravelModeEnable S (.obliging salt leftover) files pin dataDir =
      (0, Function.update files (travelPath dataDir) (some (travelFile (pinHash S pin)))) := by
  have hfile : (travelFile (pinHash S pin)).take 39 = travelFile (pinHash S pin) :=
    List.take_of_length_le (Nat.le_of_eq (length_travelFile _))
  rw [travelFile] at hfile ⊢
  simp only [koeTravelModeEnable, GhostEnv.obliging, Bool.not_true, Bool.false_eq_true, if_false,
    hfile]

/-- Assumes: the file of travel mode. -/
theorem koeTravelModeDisable_obliging {files : Files} {stored : Option (Block 32)}
    (htravel : files (travelPath dataDir) = stored.map travelFile) (pin : List UInt8)
    (salt leftover : Block 32) :
    koeTravelModeDisable S (.obliging salt leftover) files pin dataDir =
      if stored = some (pinHash S pin) then (0, Function.update files (travelPath dataDir) none)
      else (-1, files) := by
  rw [koeTravelModeDisable, GhostEnv.opened_obliging, htravel]
  cases stored with
  | none => rfl
  | some hash =>
    have hread := read_travelFile hash leftover
    simp only [Option.map_some, GhostEnv.obliging, if_true] at hread ⊢
    rw [hread]
    by_cases hsame : hash = pinHash S pin
    · rw [if_neg (not_not.mpr (congrArg List.Vector.toList hsame)), if_pos (congrArg some hsame)]
    · rw [if_pos fun heq ↦ hsame (List.Vector.eq _ _ heq),
        if_neg fun heq ↦ hsame (Option.some.inj heq)]

/-- Assumes: the file of travel mode. -/
theorem koeTravelModeActive_obliging {files : Files} {stored : Option (Block 32)}
    (htravel : files (travelPath dataDir) = stored.map travelFile) (salt leftover : Block 32) :
    koeTravelModeActive (.obliging salt leftover) files dataDir =
      if stored.isSome then 1 else 0 := by
  rw [koeTravelModeActive, GhostEnv.opened_obliging, htravel, Option.isSome_map]

/-- What a wipe leaves of the file. Assumes: a file that can be opened. -/
theorem koeSecretChatWipe_leaves {env : GhostEnv} (hopens : env.opens = true) {files : Files}
    {secret : List UInt8} (hsecret : files (secretPath dataDir) = some secret) :
    ∃ reached ≤ secret.length, ((∀ k, 512 ≤ env.zeroed k) → reached = secret.length) ∧
      (koeSecretChatWipe env files dataDir).2.2 (secretPath dataDir) =
        if env.removes then none else some (erasedUpTo reached secret) := by
  obtain ⟨reached, hreached, hwhole, heq⟩ := wipeLoop_eq env.zeroed secret secret.length
    0 secret.length 0 (Nat.le_refl _) (Nat.le_of_eq (Nat.zero_add _))
  rw [Nat.zero_add] at hreached hwhole
  refine ⟨reached, hreached, hwhole, ?_⟩
  have hopened : env.opened files (secretPath dataDir) = some secret := by
    rw [GhostEnv.opened, if_pos hopens, hsecret]
  have hstart : erasedUpTo 0 secret = secret := rfl
  rw [hstart] at heq
  rw [koeSecretChatWipe, hopened]
  dsimp only
  rw [Function.update_self, heq]

theorem PrivacyCall.runCode_repin (other : List UInt8 → List UInt8) (call : PrivacyCall) :
    (call.repin other).runCode S dataDir vars = call.runCode S dataDir vars := by
  cases call with
  | unlock pin salt => rfl
  | ghostEnable => rfl
  | ghostDisable => rfl
  | lock => rfl
  | wipe => rfl
  | travelEnable pin => rfl
  | travelDisable pin leftover => rfl

/-- Assumes: the module as it behaves. -/
theorem GhostVars.Refines.shouldRespond (hrefines : vars.Refines dataDir privacy) (type : UInt8) :
    koeGhostShouldRespond vars.ghost type =
      if privacy.ghost && !isDirectMsg type then 0 else 1 := by
  rw [koeGhostShouldRespond, hrefines.ghost]
  cases privacy.ghost with
  | false => rfl
  | true => cases isDirectMsg type <;> rfl

/-- Assumes: the module as it behaves, and a data directory whose files have their full names. -/
theorem GhostVars.Refines.run (hdir : dataDir.length ≤ 500)
    (hrefines : vars.Refines dataDir privacy) (call : PrivacyCall) :
    (call.runCode S dataDir vars).1 = (call.run S privacy).1 ∧
      (call.runCode S dataDir vars).2.Refines dataDir (call.run S privacy).2 := by
  have hne := secretPath_ne_travelPath hdir
  cases call with
  | ghostEnable => exact ⟨rfl, rfl, hrefines.unlocked, hrefines.secret, hrefines.travel⟩
  | ghostDisable => exact ⟨rfl, rfl, hrefines.unlocked, hrefines.secret, hrefines.travel⟩
  | lock => exact ⟨rfl, hrefines.ghost, rfl, hrefines.secret, hrefines.travel⟩
  | unlock pin salt =>
    rw [PrivacyCall.runCode, koeSecretChatUnlock_obliging hrefines.secret]
    refine ⟨rfl, hrefines.ghost, rfl, ?_, ?_⟩
    · exact Function.update_self (secretPath dataDir) _ vars.files
    · dsimp only
      rw [Function.update_of_ne hne.symm]
      exact hrefines.travel
  | wipe =>
    rw [PrivacyCall.runCode, koeSecretChatWipe_obliging]
    refine ⟨rfl, hrefines.ghost, rfl, ?_, ?_⟩
    · exact Function.update_self (secretPath dataDir) _ vars.files
    · dsimp only
      rw [Function.update_of_ne hne.symm]
      exact hrefines.travel
  | travelEnable pin =>
    rw [PrivacyCall.runCode, koeTravelModeEnable_obliging]
    refine ⟨rfl, hrefines.ghost, hrefines.unlocked, ?_, ?_⟩
    · dsimp only
      rw [Function.update_of_ne hne]
      exact hrefines.secret
    · exact Function.update_self (travelPath dataDir) _ vars.files
  | travelDisable pin leftover =>
    rw [PrivacyCall.runCode, koeTravelModeDisable_obliging hrefines.travel, PrivacyCall.run]
    split_ifs with hpin
    · refine ⟨rfl, hrefines.ghost, hrefines.unlocked, ?_, ?_⟩
      · dsimp only
        rw [Function.update_of_ne hne]
        exact hrefines.secret
      · exact Function.update_self (travelPath dataDir) _ vars.files
    · exact ⟨rfl, hrefines⟩

end Calls

/-- Ghost mode, secret chats and travel mode behave as `Privacy`, after every run in a process that
starts with them closed. Other PINs for the secret chats lead to the same state. From every state
that a run leads to, turning travel mode on with a PIN and off with the same PIN turns it off,
whatever PIN it was on with; and a wipe of a file that opens removes it or, where it cannot be
removed, has put zeros in the place of its first bytes, and of all if every write is whole. Assumes:
runs in which files that exist open and are removed, and others are made and written whole
(`GhostEnv.obliging`); a data directory whose files have their full names; and a file of travel mode
that was written whole, if there is one. -/
theorem koeGhost_refines (S : Sodium) (dataDir : List UInt8) (hdir : dataDir.length ≤ 500)
    (files : Files) (pin : Option (Block 32))
    (htravel : files (travelPath dataDir) = pin.map travelFile) (calls : List PrivacyCall) :
    let start : GhostVars := ⟨⟨0, 0, 0⟩, 0, files⟩
    let vars := calls.foldl (fun vars call ↦ (call.runCode S dataDir vars).2) start
    let privacy := calls.foldl (fun privacy call ↦ (call.run S privacy).2)
      ⟨false, false, files (secretPath dataDir), pin⟩
    (∀ call : PrivacyCall, (call.runCode S dataDir vars).1 = (call.run S privacy).1) ∧
      (∀ type, koeGhostShouldRespond vars.ghost type =
        if privacy.ghost && !isDirectMsg type then 0 else 1) ∧
      vars.unlocked = (if privacy.unlocked then 1 else 0) ∧
      (∀ salt leftover, koeTravelModeActive (.obliging salt leftover) vars.files dataDir =
        if privacy.pin.isSome then 1 else 0) ∧
      (∀ other, (calls.map (PrivacyCall.repin other)).foldl
        (fun vars call ↦ (call.runCode S dataDir vars).2) start = vars) ∧
      (∀ own leftover,
        let left := (PrivacyCall.travelDisable own leftover).runCode S dataDir
          ((PrivacyCall.travelEnable own).runCode S dataDir vars).2
        left.1 = 0 ∧ koeTravelModeActive (.obliging leftover leftover) left.2.files dataDir = 0) ∧
      ∀ (env : GhostEnv) (secret : List UInt8), env.opens = true →
        vars.files (secretPath dataDir) = some secret →
          ∃ reached ≤ secret.length, ((∀ k, 512 ≤ env.zeroed k) → reached = secret.length) ∧
            (koeSecretChatWipe env vars.files dataDir).2.2 (secretPath dataDir) =
              if env.removes then none else some (erasedUpTo reached secret) := by
  intro start vars privacy
  have hrefines : vars.Refines dataDir privacy := by
    have hstart : start.Refines dataDir ⟨false, false, files (secretPath dataDir), pin⟩ :=
      ⟨rfl, rfl, rfl, htravel⟩
    exact List.foldl_rel hstart fun call _ vars privacy hbefore ↦ (hbefore.run hdir call).2
  refine ⟨fun call ↦ (hrefines.run hdir call).1, hrefines.shouldRespond, hrefines.unlocked,
    koeTravelModeActive_obliging hrefines.travel, fun other ↦ ?_, fun own leftover ↦ ?_,
    fun env secret hopens hsecret ↦ koeSecretChatWipe_leaves hopens hsecret⟩
  · rw [List.foldl_map]
    simp only [PrivacyCall.runCode_repin]
    rfl
  · intro left
    obtain ⟨hcode, hleft⟩ := ((hrefines.run hdir (.travelEnable own)).2).run hdir
      (.travelDisable own leftover)
    have hoff : (PrivacyCall.travelDisable own leftover).run S
        ((PrivacyCall.travelEnable own).run S privacy).2 = (0, { privacy with pin := none }) := by
      rw [PrivacyCall.run, PrivacyCall.run, if_pos rfl]
    rw [hoff] at hcode hleft
    refine ⟨hcode, ?_⟩
    exact koeTravelModeActive_obliging hleft.travel leftover leftover

/-- Ghost mode, and travel mode with a PIN. -/
def borderCalls : List PrivacyCall := [.ghostEnable, .travelEnable (ascii "1234")]

/-- Another PIN does not turn travel mode off at the border in one call, and does in two. -/
theorem borderCalls_undone :
    let start : GhostVars := ⟨⟨0, 0, 0⟩, 0, fun _ ↦ none⟩
    let vars := borderCalls.foldl
      (fun vars call ↦ (call.runCode Sodium.transparent (ascii "koe") vars).2) start
    let other := ascii "0000"
    let off := PrivacyCall.travelDisable other (Block.zero 32)
    let undone := off.runCode Sodium.transparent (ascii "koe")
      ((PrivacyCall.travelEnable other).runCode Sodium.transparent (ascii "koe") vars).2
    let env := GhostEnv.obliging (Block.zero 32) (Block.zero 32)
    koeTravelModeActive env vars.files (ascii "koe") = 1 ∧
      (off.runCode Sodium.transparent (ascii "koe") vars).1 = -1 ∧ undone.1 = 0 ∧
      koeTravelModeActive env undone.2.files (ascii "koe") = 0 := by
  intro start vars other off undone env
  obtain ⟨hcodes, -, -, hactive, -, hown, -⟩ := koeGhost_refines Sodium.transparent (ascii "koe")
    (by decide) (fun _ ↦ none) none rfl borderCalls
  have hwrong : (off.run Sodium.transparent (borderCalls.foldl
      (fun privacy call ↦ (call.run Sodium.transparent privacy).2)
      ⟨false, false, none, none⟩)).1 = -1 := by
    decide
  exact ⟨hactive (Block.zero 32) (Block.zero 32), (hcodes off).trans hwrong,
    hown other (Block.zero 32)⟩

end KoeCore
