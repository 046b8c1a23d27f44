import KoeCore.Backup.Restore

/-!
# An import of any archive

What the loop of `koe_backup_import` does with a plaintext that no export has written. The loop
ends on every plaintext (`extractFrom_ends`): each round moves the offset on by six bytes or more.
Its reads are listed by `extractReads`, round by round. On a concatenation of
records they stay inside the buffer (`IsArchive.reads_inside`). On other plaintexts the length
behind a path can lie outside, and the loop just stops at what it cannot unpack, and the function
returns 0 all the same.

An import is therefore as strict as its archive is well formed (`koeBackupImport_strict_iff`).
-/

set_option autoImplicit false
set_option relaxedAutoImplicit false

namespace KoeCore

open ByteWire

/-- The plaintext is a concatenation of complete records, each with a length of 16 bits, a path of
that length, a length of 32 bits and contents of that length. -/
def IsArchive (plain : List UInt8) : Prop :=
  ∃ entries : List (List UInt8 × List UInt8),
    (∀ entry ∈ entries, entry.1.length < 2 ^ 16 ∧ entry.2.length < 2 ^ 32) ∧
      plain = entries.flatMap fun entry ↦ archiveRecord entry.1 entry.2

/-- The reads of the loop from the plaintext, for at most `fuel` rounds. -/
def extractReads (beyond plain : List UInt8) : ℕ → ℕ → List (ℕ × ℕ)
  | 0, _ => []
  | fuel + 1, offset =>
    (readRound beyond plain offset).1 ++
      match (readRound beyond plain offset).2 with
      | none => []
      | some record => extractReads beyond plain fuel record.next

/-- What is asked of an import that gets to a plaintext: its loop ends, it reads nothing outside the
plaintext, and it returns 0 for an archive only. -/
structure StrictImport (S : Sodium) (pwhash : Pwhash) (env : ImportEnv)
    (backup : Option (List UInt8)) (passphrase dataDir : List UInt8) (fs : DataFiles)
    (plain : List UInt8) : Prop where
  ends :
    let last := extractFrom (restoreFile dataDir) env.beyond plain plain.length 0 fs
    extractRound (restoreFile dataDir) env.beyond plain last.1 last.2 = none
  inside : ∀ read ∈ extractReads env.beyond plain plain.length 0, read.1 + read.2 ≤ plain.length
  strict : (koeBackupImport S pwhash env backup passphrase dataDir fs).1 = 0 → IsArchive plain

/-! ### The loop ends -/

section Extract

variable {σ : Type*} {visit : σ → List UInt8 → List UInt8 → σ} {beyond plain : List UInt8}

/-- Assumes: a round behind which the loop goes on. -/
theorem extractRound_advances {offset next : ℕ} {state visited : σ}
    (hround : extractRound visit beyond plain offset state = some (next, visited)) :
    offset + 6 ≤ next := by
  obtain ⟨record, hrecord, heq⟩ := Option.map_eq_some_iff.mp hround
  obtain ⟨rfl, -⟩ := Prod.mk.inj heq
  rw [readRound] at hrecord
  dsimp only at hrecord
  split_ifs at hrecord
  rw [← Option.some.inj hrecord]
  dsimp only
  omega

/-- Assumes: a bound that reaches the end of the plaintext. -/
theorem extractFrom_ends {fuel : ℕ} :
    ∀ {offset : ℕ} {state : σ}, plain.length ≤ offset + fuel →
      let last := extractFrom visit beyond plain fuel offset state
      extractRound visit beyond plain last.1 last.2 = none := by
  induction fuel with
  | zero =>
    intro offset state hfuel
    have hend : ¬ offset + 6 < plain.length := by omega
    simp only [extractFrom]
    rw [extractRound, readRound, if_neg hend]
    rfl
  | succ fuel ih =>
    intro offset state hfuel
    rcases hround : extractRound visit beyond plain offset state with _ | ⟨next, visited⟩
    · simp only [extractFrom, hround]
    · have hnext := extractRound_advances hround
      simp only [extractFrom, hround]
      exact ih (by omega)

end Extract

/-! ### The reads on an archive -/

/-- The reads of a round that begins at a record stay inside the record. Assumes: lengths that fit
into their fields. -/
theorem extractReads_record (beyond : List UInt8) {path fileData : List UInt8}
    (hpath : path.length < 2 ^ 16) (hdata : fileData.length < 2 ^ 32) (front back : List UInt8)
    (fuel : ℕ) :
    let plain := front ++ archiveRecord path fileData ++ back
    let next := (front ++ archiveRecord path fileData).length
    ∀ read ∈ extractReads beyond plain (fuel + 1) front.length,
      read.1 + read.2 ≤ next ∨ read ∈ extractReads beyond plain fuel next := by
  intro plain next read hread
  have hnext : next = front.length + 2 + path.length + 4 + fileData.length :=
    length_append_archiveRecord front path fileData
  rw [extractReads] at hread
  by_cases hmore : front.length + 6 < plain.length
  · rw [readRound_record beyond hpath hdata front back hmore] at hread
    simp only [List.cons_append, List.nil_append, List.mem_cons] at hread
    rcases hread with rfl | rfl | rfl | rfl | hlater
    · exact Or.inl (by dsimp only; omega)
    · exact Or.inl (by dsimp only; omega)
    · exact Or.inl (by dsimp only; omega)
    · exact Or.inl (by dsimp only; omega)
    · exact Or.inr hlater
  · rw [readRound, if_neg hmore] at hread
    exact absurd hread List.not_mem_nil

/-- Assumes: records with lengths that fit into their fields. -/
theorem extractReads_records (beyond : List UInt8) (entries : List (List UInt8 × List UInt8))
    (hentries : ∀ entry ∈ entries, entry.1.length < 2 ^ 16 ∧ entry.2.length < 2 ^ 32) :
    ∀ (front : List UInt8) (fuel : ℕ),
      let plain := front ++ entries.flatMap fun entry ↦ archiveRecord entry.1 entry.2
      ∀ read ∈ extractReads beyond plain fuel front.length, read.1 + read.2 ≤ plain.length := by
  induction entries with
  | nil =>
    intro front fuel plain read hread
    have hend : ¬ front.length + 6 < plain.length := by simp [plain]
    cases fuel with
    | zero => exact absurd hread List.not_mem_nil
    | succ fuel =>
      rw [extractReads, readRound, if_neg hend] at hread
      exact absurd hread List.not_mem_nil
  | cons entry entries ih =>
    obtain ⟨⟨hpath, hdata⟩, hrest⟩ := List.forall_mem_cons.mp hentries
    intro front fuel plain read hread
    have hplain : plain = front ++ archiveRecord entry.1 entry.2 ++
        entries.flatMap fun later ↦ archiveRecord later.1 later.2 := by
      simp only [plain, List.flatMap_cons, List.append_assoc]
    cases fuel with
    | zero => exact absurd hread List.not_mem_nil
    | succ fuel =>
      rw [hplain] at hread ⊢
      rcases extractReads_record beyond hpath hdata front _ fuel read hread with hhere | hlater
      · refine Nat.le_trans hhere ?_
        simp only [List.length_append]
        omega
      · exact ih hrest (front ++ archiveRecord entry.1 entry.2) fuel read hlater

/-- Assumes: an archive. -/
theorem IsArchive.reads_inside {plain : List UInt8} (harchive : IsArchive plain)
    (beyond : List UInt8) (fuel : ℕ) :
    ∀ read ∈ extractReads beyond plain fuel 0, read.1 + read.2 ≤ plain.length := by
  obtain ⟨entries, hentries, rfl⟩ := harchive
  exact extractReads_records beyond entries hentries [] fuel

/-! ### Strictness -/

/-- An import that gets to a plaintext is strict exactly when the plaintext is an archive. Assumes:
an import that decrypts a plaintext. -/
theorem koeBackupImport_strict_iff {S : Sodium} {pwhash : Pwhash} {env : ImportEnv}
    {backup : Option (List UInt8)} {passphrase plain : List UInt8}
    (hplain : importPlain S pwhash env backup passphrase = some plain) (dataDir : List UInt8)
    (fs : DataFiles) :
    StrictImport S pwhash env backup passphrase dataDir fs plain ↔ IsArchive plain := by
  constructor
  · intro hstrict
    apply hstrict.strict
    rw [koeBackupImport, hplain]
  · intro harchive
    exact ⟨extractFrom_ends (by omega), harchive.reads_inside env.beyond plain.length,
      fun _ ↦ harchive⟩

/-- The backup of a plaintext, sealed as an export seals its archive. -/
def sealedBackup (plain : List UInt8) : List UInt8 :=
  backupHeader smoothExport (plain.length + koeTagLen) ++
    (Sodium.transparentMask (Block.zero 32) plain ++
      (Sodium.transparentTag (Block.zero 32) (Block.zero 24) plain).toList)

/-- An import to which the environment grants everything. -/
def smoothImport : ImportEnv := ⟨true, true, []⟩

/-- Assumes: a plaintext with a length of 64 bits. -/
theorem importPlain_sealedBackup (plain : List UInt8) (hsize : plain.length + koeTagLen < 2 ^ 64) :
    importPlain Sodium.transparent plainPwhash smoothImport (some (sealedBackup plain)) [] =
      some plain := by
  have hkey : plainPwhash [] smoothExport.salt = some (Block.zero 32) := rfl
  exact importPlain_sealed Sodium.transparent_aead hkey rfl hsize smoothImport

/-- The archive of two files is imported strictly. -/
theorem twoEntries_strict :
    let plain := twoEntries.flatMap fun entry ↦ archiveRecord entry.1 entry.2
    importPlain Sodium.transparent plainPwhash smoothImport (some (sealedBackup plain)) [] =
        some plain ∧
      StrictImport Sodium.transparent plainPwhash smoothImport (some (sealedBackup plain)) []
        [0x74] emptyTarget plain := by
  intro plain
  have hplain := importPlain_sealedBackup plain (by decide)
  have harchive : IsArchive plain := ⟨twoEntries, by decide, rfl⟩
  exact ⟨hplain, (koeBackupImport_strict_iff hplain [0x74] emptyTarget).mpr harchive⟩

/-- A plaintext that ends with a path of five bytes. -/
def cutArchive : List UInt8 := [5, 0, 0x61, 0x61, 0x61, 0x61, 0x61]

/-- The import of a plaintext that ends behind a path reads four bytes behind the plaintext and
returns 0. -/
theorem cutArchive_accepted :
    importPlain Sodium.transparent plainPwhash smoothImport (some (sealedBackup cutArchive)) [] =
        some cutArchive ∧
      (koeBackupImport Sodium.transparent plainPwhash smoothImport
        (some (sealedBackup cutArchive)) [] [0x74] emptyTarget).1 = 0 ∧
      (7, 4) ∈ extractReads smoothImport.beyond cutArchive cutArchive.length 0 ∧
      cutArchive.length = 7 ∧ ¬ IsArchive cutArchive := by
  have hplain := importPlain_sealedBackup cutArchive (by decide)
  have hread : (7, 4) ∈ extractReads [] cutArchive 7 0 := by decide
  refine ⟨hplain, ?_, hread, rfl, ?_⟩
  · rw [koeBackupImport, hplain]
  · intro harchive
    exact absurd (harchive.reads_inside [] 7 _ hread) (by decide)

end KoeCore
