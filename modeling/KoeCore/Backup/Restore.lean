import KoeCore.Account.Registry
import KoeCore.Backup.Archive
import KoeCore.Library.Directory
import Mathlib.Data.List.TakeWhile

/-!
# Backup and restore

`koe_backup_export` and `koe_backup_import` of `koe_backup.c`. An export archives a directory tree
and encrypts the archive under a key from a passphrase. An import decrypts it and walks through its
records; for each it makes the directory of the file with one `mkdir` and writes the file, and goes
on when that fails. What is written to an open file is taken to arrive there.

`extractFrom_records` says that the walk visits exactly the records that were archived, and
`koeBackupImport_exported` that an import of an export unpacks the files of the tree in the order in
which they were archived. One `mkdir` does not make a directory below a missing one, so
`koeBackup_restores_iff` has the condition of `Directory.Placed`: everything is restored exactly
when every file is near the top, or an earlier file is in its directory or in the one above.
-/

set_option autoImplicit false
set_option relaxedAutoImplicit false

namespace KoeCore

open ByteWire Directory

/-! ### Export -/

/-- `KOE_BACKUP_MAGIC`. -/
def backupMagic : List UInt8 := [0x4b, 0x4f, 0x45, 0x42, 0x41, 0x4b]

/-- What an export takes from its environment: memory, the salt and the nonce drawn, the clock,
whether the file can be opened, and the bytes of the header that are never set, its padding and the
rest of its salt. -/
structure ExportEnv where
  memory : Memory
  salt : Block 16
  nonce : Block 24
  now : ℕ
  opens : Bool
  padding : UInt8
  saltRest : Block 16

/-- `koe_backup_header_t` as it lies in memory. -/
def backupHeader (env : ExportEnv) (payloadLen : ℕ) : List UInt8 :=
  backupMagic ++ [1, env.padding] ++ (leBytes 8 env.now).toList ++ env.salt.toList ++
    env.saltRest.toList ++ env.nonce.toList ++ (leBytes 8 payloadLen).toList

/-- The return code, and the contents of the file that was written. -/
def koeBackupExport (S : Sodium) (pwhash : Pwhash) (env : ExportEnv) (passphrase : List UInt8)
    (dataDir : List UInt8) (tree : Tree) : ℤ × Option (List UInt8) :=
  if !env.memory 0 then (-1, none)
  else
    let arc := archiveDir env.memory dataDir [] tree ⟨[], 65536, 1⟩
    match pwhash passphrase env.salt with
    | none => (-1, none)
    | some key =>
      if !env.memory arc.asked then (-1, none)
      else
        match koeEncrypt S arc.data env.nonce key with
        | none => (-1, none)
        | some ct =>
          if !env.opens then (-1, none)
          else (0, some (backupHeader env (arc.data.length + koeTagLen) ++ ct))

/-! ### Import -/

/-- A record that a round of the loop has read, and the offset behind it. -/
structure ReadRecord where
  relPath : List UInt8
  fileData : List UInt8
  next : ℕ

/-- One round of the loop of `koe_backup_import` over the decrypted archive: what it reads, each as
an offset and a number of bytes, and the record, or `none` when the loop ends there. The path is the
string in a buffer of 512 bytes. The length of the contents is read without a check, and `beyond` is
what lies behind the plaintext. -/
def readRound (beyond plain : List UInt8) (offset : ℕ) : List (ℕ × ℕ) × Option ReadRecord :=
  if offset + 6 < plain.length then
    let pathLen := ofLeBytes (readAt 2 offset plain).toList
    let start := offset + 2
    if start + pathLen > plain.length then ([(offset, 2)], none)
    else
      let relPath := ((plain.drop start).take (min pathLen 511)).takeWhile (· ≠ 0)
      let dataLen := ofLeBytes (readAt 4 (start + pathLen) (plain ++ beyond)).toList
      let dataStart := start + pathLen + 4
      let reads := [(offset, 2), (start, min pathLen 511), (start + pathLen, 4)]
      if dataStart + dataLen > plain.length then (reads, none)
      else
        (reads ++ [(dataStart, dataLen)],
          some ⟨relPath, (plain.drop dataStart).take dataLen, dataStart + dataLen⟩)
  else ([], none)

section Loop

variable {σ : Type*} (visit : σ → List UInt8 → List UInt8 → σ) (beyond plain : List UInt8)

/-- A round from an offset and a state: the record is passed to `visit`, as the string of its path
and its contents. -/
def extractRound (offset : ℕ) (state : σ) : Option (ℕ × σ) :=
  (readRound beyond plain offset).2.map fun record ↦
    (record.next, visit state record.relPath record.fileData)

/-- The loop, for at most `fuel` rounds: the offset at which it ends, and the state. -/
def extractFrom : ℕ → ℕ → σ → ℕ × σ
  | 0, offset, state => (offset, state)
  | fuel + 1, offset, state =>
    match extractRound visit beyond plain offset state with
    | none => (offset, state)
    | some (next, visited) => extractFrom fuel next visited

end Loop

/-- One component of a path, from a directory on. -/
def enter (dir : List Name) (name : Name) : List Name :=
  if name = [] ∨ name = [dot] then dir
  else if name = [dot, dot] then dir.dropLast
  else dir ++ [name]

/-- The location that a path denotes. There are no links, and a `..` is resolved in the text: the
directory that it leaves need not exist. -/
def resolve (path : List UInt8) : List Name := (path.splitOnP (· == slash)).foldl enter []

/-- The string up to the last slash, if there is one, as `strrchr` finds it. -/
def dirPath (path : List UInt8) : Option (List UInt8) :=
  if slash ∈ path then some (path.reverse.dropWhile (· ≠ slash)).tail.reverse else none

/-- The files that an import writes to. -/
abbrev DataFiles := FileSystem Name (List UInt8)

/-- What the loop does with a record. A failing `mkdir` or `fopen` goes unnoticed. The last byte of
`dir_path` is never set; it is taken to be zero, so that a path of 511 bytes ends there. -/
def restoreFile (dataDir : List UInt8) (fs : DataFiles) (relPath fileData : List UInt8) :
    DataFiles :=
  let absPath := pathBuf (joined dataDir relPath)
  let fs :=
    match dirPath absPath with
    | some dir => fs.mkdir (resolve dir)
    | none => fs
  fs.write (resolve absPath) fileData

/-- What an import takes from its environment: memory for the ciphertext and for the plaintext, and
what lies behind the plaintext. -/
structure ImportEnv where
  ctAlloc : Bool
  plainAlloc : Bool
  beyond : List UInt8

/-- The first half of `koe_backup_import`: the plaintext, or `none` where it returns -1, given the
contents of the backup if it can be read. -/
def importPlain (S : Sodium) (pwhash : Pwhash) (env : ImportEnv) (backup : Option (List UInt8))
    (passphrase : List UInt8) : Option (List UInt8) :=
  match backup with
  | none => none
  | some bytes =>
    if bytes.length < 80 ∨ bytes.take 6 ≠ backupMagic then none
    else
      let payloadLen := ofLeBytes (readAt 8 72 bytes).toList
      if !env.ctAlloc ∨ bytes.length < 80 + payloadLen then none
      else
        match pwhash passphrase (readAt 16 16 bytes) with
        | none => none
        | some key =>
          if !env.plainAlloc then none
          else koeDecrypt S ((bytes.drop 80).take payloadLen) (readAt 24 48 bytes) key

/-- The return code, and the files after the call. -/
def koeBackupImport (S : Sodium) (pwhash : Pwhash) (env : ImportEnv)
    (backup : Option (List UInt8)) (passphrase dataDir : List UInt8) (fs : DataFiles) :
    ℤ × DataFiles :=
  match importPlain S pwhash env backup passphrase with
  | none => (-1, fs)
  | some plain => (0, (extractFrom (restoreFile dataDir) env.beyond plain plain.length 0 fs).2)

/-! ### The records come out as they went in -/

/-- A path and contents that a record can hold: a path of 1 to 511 bytes that are not zero, and
fewer than 2^32 bytes. -/
structure Archivable (path fileData : List UInt8) : Prop where
  path_ne_nil : path ≠ []
  path_length : path.length < 512
  path_no_zero : 0 ∉ path
  data_length : fileData.length < 2 ^ 32

theorem length_archiveRecord (path fileData : List UInt8) :
    (archiveRecord path fileData).length = 2 + path.length + 4 + fileData.length := by
  simp only [archiveRecord, List.length_append, List.Vector.toList_length]

/-- The end of a record, as the loop computes it from the lengths that it reads. -/
theorem length_append_archiveRecord (front path fileData : List UInt8) :
    (front ++ archiveRecord path fileData).length =
      front.length + 2 + path.length + 4 + fileData.length := by
  rw [List.length_append, length_archiveRecord]
  omega

/-- The length of the path of a record is read back. Assumes: a length of 16 bits. -/
theorem readPathLen_record {path : List UInt8} (hpath : path.length < 2 ^ 16)
    (fileData front back : List UInt8) :
    ofLeBytes (readAt 2 front.length (front ++ archiveRecord path fileData ++ back)).toList =
      path.length := by
  have hbytes : front ++ archiveRecord path fileData ++ back =
      front ++ ((leBytes 2 path.length).toList ++
        (path ++ (leBytes 4 fileData.length).toList ++ fileData ++ back)) := by
    simp [archiveRecord]
  rw [readAt_of_eq front (leBytes 2 path.length) hbytes rfl, ofLeBytes_leBytes]
  exact Nat.mod_eq_of_lt hpath

/-- The length of the contents of a record is read back. Assumes: a length of 32 bits. -/
theorem readDataLen_record (path : List UInt8) {fileData : List UInt8}
    (hdata : fileData.length < 2 ^ 32) (front back : List UInt8) :
    ofLeBytes (readAt 4 (front.length + 2 + path.length)
        (front ++ archiveRecord path fileData ++ back)).toList = fileData.length := by
  have hbytes : front ++ archiveRecord path fileData ++ back =
      (front ++ (leBytes 2 path.length).toList ++ path) ++
        ((leBytes 4 fileData.length).toList ++ (fileData ++ back)) := by
    simp [archiveRecord]
  rw [readAt_of_eq (front ++ (leBytes 2 path.length).toList ++ path) (leBytes 4 fileData.length)
    hbytes (by simp; omega), ofLeBytes_leBytes]
  exact Nat.mod_eq_of_lt hdata

/-- A round that begins at a record reads its parts and goes on behind it. Assumes: lengths that fit
their fields, and a record that is not passed over at the end. -/
theorem readRound_record (beyond : List UInt8) {path fileData : List UInt8}
    (hpath : path.length < 2 ^ 16) (hdata : fileData.length < 2 ^ 32) (front back : List UInt8)
    (hmore : front.length + 6 < (front ++ archiveRecord path fileData ++ back).length) :
    let next := (front ++ archiveRecord path fileData).length
    readRound beyond (front ++ archiveRecord path fileData ++ back) front.length =
      ([(front.length, 2), (front.length + 2, min path.length 511),
          (front.length + 2 + path.length, 4), (next - fileData.length, fileData.length)],
        some ⟨(path.take 511).takeWhile (· ≠ 0), fileData, next⟩) := by
  intro next
  let plain := front ++ archiveRecord path fileData ++ back
  have hlength : plain.length = next + back.length := List.length_append
  have hnext : next = front.length + 2 + path.length + 4 + fileData.length :=
    length_append_archiveRecord front path fileData
  have hpathLen : ofLeBytes (readAt 2 front.length plain).toList = path.length :=
    readPathLen_record hpath fileData front back
  have hrelPath : (plain.drop (front.length + 2)).take (min path.length 511) = path.take 511 := by
    have hbytes : plain = (front ++ (leBytes 2 path.length).toList) ++
        (path ++ ((leBytes 4 fileData.length).toList ++ fileData ++ back)) := by
      simp [plain, archiveRecord]
    have hoff : (front ++ (leBytes 2 path.length).toList).length = front.length + 2 := by simp
    rw [hbytes, ← hoff, List.drop_left, Nat.min_comm, ← List.take_take, List.take_left]
  have hdataLen : ofLeBytes (readAt 4 (front.length + 2 + path.length) (plain ++ beyond)).toList =
      fileData.length := by
    rw [List.append_assoc]
    exact readDataLen_record path hdata front (back ++ beyond)
  have hcontents : (plain.drop (front.length + 2 + path.length + 4)).take fileData.length =
      fileData := by
    have hbytes : plain = (front ++ (leBytes 2 path.length).toList ++ path ++
        (leBytes 4 fileData.length).toList) ++ (fileData ++ back) := by
      simp [plain, archiveRecord]
    have hoff : (front ++ (leBytes 2 path.length).toList ++ path ++
        (leBytes 4 fileData.length).toList).length = front.length + 2 + path.length + 4 := by
      simp
      omega
    rw [hbytes, ← hoff, List.drop_left, List.take_left]
  have hstart : next - fileData.length = front.length + 2 + path.length + 4 := by omega
  change readRound beyond plain front.length = _
  rw [readRound, if_pos hmore, hstart]
  simp only [hpathLen, hrelPath, hdataLen, hcontents, ← hnext]
  rw [if_neg (by omega), if_neg (by omega)]
  rfl

section Extract

variable {σ : Type*} (visit : σ → List UInt8 → List UInt8 → σ) (beyond : List UInt8)

/-- What a map makes of the state after the loop is the state of a loop, if the visits commute with
the map. -/
theorem map_extractFrom {τ : Type*} {visitAfter : τ → List UInt8 → List UInt8 → τ} (f : σ → τ)
    (hvisit : ∀ state relPath fileData,
      f (visit state relPath fileData) = visitAfter (f state) relPath fileData)
    (plain : List UInt8) (fuel : ℕ) :
    ∀ (offset : ℕ) (state : σ), f (extractFrom visit beyond plain fuel offset state).2 =
      (extractFrom visitAfter beyond plain fuel offset (f state)).2 := by
  induction fuel with
  | zero => exact fun _ _ ↦ rfl
  | succ fuel ih =>
    intro offset state
    rw [extractFrom, extractFrom, extractRound, extractRound]
    cases (readRound beyond plain offset).2 with
    | none => rfl
    | some record =>
      simp only [Option.map_some, ih, hvisit]

/-- A round visits the record at the offset and goes on behind it. Assumes: a record that is
archivable. -/
theorem extractRound_record {path fileData : List UInt8} (harchivable : Archivable path fileData)
    (front back : List UInt8) (state : σ) :
    extractRound visit beyond (front ++ archiveRecord path fileData ++ back) front.length state =
      some ((front ++ archiveRecord path fileData).length, visit state path fileData) := by
  have hpositive : 0 < path.length := List.length_pos_iff.mpr harchivable.path_ne_nil
  have hpath := harchivable.path_length
  have hmore : front.length + 6 < (front ++ archiveRecord path fileData ++ back).length := by
    rw [List.length_append, length_append_archiveRecord]
    omega
  have hstring : (path.take 511).takeWhile (· ≠ 0) = path := by
    rw [List.take_of_length_le (by omega), List.takeWhile_eq_self_iff]
    intro byte hbyte
    exact decide_eq_true fun hzero ↦ harchivable.path_no_zero (hzero ▸ hbyte)
  rw [extractRound, readRound_record beyond (by omega) harchivable.data_length front back hmore,
    hstring]
  rfl

/-- The loop ends at the end of the buffer. -/
theorem extractRound_length (plain : List UInt8) (state : σ) :
    extractRound visit beyond plain plain.length state = none := by
  rw [extractRound, readRound, if_neg (by omega)]
  rfl

/-- The loop visits exactly the archived records, in their order, and stops at the end. Assumes:
records that are archivable, and a bound that allows a round for each. -/
theorem extractFrom_records (entries : List (List UInt8 × List UInt8))
    (hentries : ∀ entry ∈ entries, Archivable entry.1 entry.2) :
    ∀ (front : List UInt8) (fuel : ℕ) (state : σ), entries.length ≤ fuel →
      let plain := front ++ entries.flatMap fun entry ↦ archiveRecord entry.1 entry.2
      extractFrom visit beyond plain fuel front.length state =
        (plain.length, entries.foldl (fun state entry ↦ visit state entry.1 entry.2) state) := by
  induction entries with
  | nil =>
    intro front fuel state _
    rw [List.flatMap_nil, List.append_nil]
    cases fuel with
    | zero => rfl
    | succ fuel => simp only [extractFrom, extractRound_length, List.foldl_nil]
  | cons entry entries ih =>
    intro front fuel state hfuel
    obtain ⟨fuel, rfl⟩ : ∃ left, fuel = left + 1 :=
      ⟨fuel - 1, by rw [List.length_cons] at hfuel; omega⟩
    have hfirst := hentries entry List.mem_cons_self
    have hrest : ∀ later ∈ entries, Archivable later.1 later.2 :=
      fun later hlater ↦ hentries later (List.mem_cons_of_mem entry hlater)
    rw [List.flatMap_cons, ← List.append_assoc]
    simp only [extractFrom, extractRound_record visit beyond hfirst, List.foldl_cons]
    exact ih hrest _ fuel _ (Nat.le_of_succ_le_succ hfuel)

end Extract

/-- What the loop visits, as a list. -/
def visitedEntries (visited : List (List UInt8 × List UInt8)) (relPath fileData : List UInt8) :
    List (List UInt8 × List UInt8) :=
  visited ++ [(relPath, fileData)]

theorem foldl_visitedEntries (entries : List (List UInt8 × List UInt8)) :
    entries.foldl (fun visited entry ↦ visitedEntries visited entry.1 entry.2) [] = entries := by
  induction entries using List.reverseRecOn with
  | nil => rfl
  | append_singleton entries entry ih =>
    rw [List.foldl_append, ih]
    rfl

/-- Entries that were appended to an empty archive are visited by the loop in their order, each with
its whole path and contents, and the loop ends at the end of the buffer. Assumes: memory, entries
that are archivable, and a bound that allows a round for each. -/
theorem archive_roundTrip {memory : Memory} (hmemory : ∀ i, memory i = true)
    {entries : List (List UInt8 × List UInt8)}
    (hentries : ∀ entry ∈ entries, Archivable entry.1 entry.2) (cap asked : ℕ)
    (beyond : List UInt8) {fuel : ℕ} (hfuel : entries.length ≤ fuel) :
    let arc := entries.foldl (fun a entry ↦ appendRecord memory a entry.1 entry.2) ⟨[], cap, asked⟩
    extractFrom visitedEntries beyond arc.data fuel 0 [] = (arc.data.length, entries) ∧
      extractRound visitedEntries beyond arc.data arc.data.length entries = none := by
  intro arc
  have hlengths : ∀ entry ∈ entries, entry.1.length < 2 ^ 16 ∧ entry.2.length < 2 ^ 32 := by
    intro entry hentry
    have hpath := (hentries entry hentry).path_length
    exact ⟨by omega, (hentries entry hentry).data_length⟩
  have hdata : arc.data = [] ++ entries.flatMap fun entry ↦ archiveRecord entry.1 entry.2 :=
    foldl_appendRecord_data hmemory entries hlengths ⟨[], cap, asked⟩
  refine ⟨?_, extractRound_length visitedEntries beyond arc.data entries⟩
  have hloop := extractFrom_records visitedEntries beyond entries hentries [] fuel [] hfuel
  rw [← hdata, foldl_visitedEntries] at hloop
  exact hloop

/-- Two files, the last of them empty. -/
def twoEntries : List (List UInt8 × List UInt8) := [(ascii "a", [1, 2]), (ascii "b", [])]

theorem twoEntries_roundTrip :
    let arc := twoEntries.foldl (fun a entry ↦ appendRecord (fun _ ↦ true) a entry.1 entry.2)
      ⟨[], 65536, 1⟩
    extractFrom visitedEntries [] arc.data 2 0 [] = (arc.data.length, twoEntries) ∧
      extractRound visitedEntries [] arc.data arc.data.length twoEntries = none := by
  have hentries : ∀ entry ∈ twoEntries, Archivable entry.1 entry.2 := by
    intro entry hentry
    rcases List.mem_cons.mp hentry with rfl | hlast
    · exact ⟨by decide, by decide, by decide, by decide⟩
    · rw [List.mem_singleton.mp hlast]
      exact ⟨by decide, by decide, by decide, by decide⟩
  exact archive_roundTrip (fun _ ↦ rfl) hentries 65536 1 [] (Nat.le_refl 2)

/-! ### Paths -/

theorem splitOnP_joined (front back : List UInt8) :
    (joined front back).splitOnP (· == slash) =
      front.splitOnP (· == slash) ++ back.splitOnP (· == slash) :=
  List.splitOnP_append_cons front back (beq_self_eq_true slash)

/-- Assumes: a name without a slash. -/
theorem splitOnP_name {name : List UInt8} (hslash : slash ∉ name) :
    name.splitOnP (· == slash) = [name] := by
  apply List.splitOnP_eq_singleton
  intro byte hbyte
  exact beq_eq_false_iff_ne.mpr fun heq ↦ hslash (heq ▸ hbyte)

/-- Assumes: a proper name. -/
theorem resolve_joined {name : Name} (hname : ProperName name) (path : List UInt8) :
    resolve (joined path name) = resolve path ++ [name] := by
  have hdot : name ≠ [dot] := fun heq ↦ hname.no_dot (by rw [heq]; rfl)
  have hdots : name ≠ [dot, dot] := fun heq ↦ hname.no_dot (by rw [heq]; rfl)
  rw [resolve, splitOnP_joined, splitOnP_name hname.no_slash, List.foldl_append, List.foldl_cons,
    List.foldl_nil, enter, if_neg (not_or.mpr ⟨hname.ne_nil, hdot⟩), if_neg hdots]
  rfl

/-- The path of a file below a directory denotes its names below that directory. Assumes: proper
names. -/
theorem resolve_joined_pathText (dataDir : List UInt8) {path : List Name}
    (hpath : ∀ name ∈ path, ProperName name) :
    resolve (joined dataDir (pathText path)) = resolve dataDir ++ path := by
  induction path using List.reverseRecOn with
  | nil =>
    rw [resolve, splitOnP_joined, List.foldl_append, List.append_nil]
    rfl
  | append_singleton path name ih =>
    rw [pathText_append_name, joined_assoc, resolve_joined (hpath name (by simp)),
      ih fun other hother ↦ hpath other (List.mem_append_left _ hother), List.append_assoc]

/-- Assumes: a name without a slash. -/
theorem dirPath_joined {name : Name} (hname : slash ∉ name) (path : List UInt8) :
    dirPath (joined path name) = some path := by
  have hmem : slash ∈ joined path name := List.mem_append_right _ List.mem_cons_self
  rw [dirPath, if_pos hmem, joined, List.reverse_append, List.reverse_cons, List.append_assoc,
    List.dropWhile_append_of_pos]
  · simp
  · intro byte hbyte
    exact decide_eq_true fun hslash ↦ hname (hslash ▸ List.mem_reverse.mp hbyte)

/-- A record of an archived file is unpacked. Assumes: a path of proper names, not empty, that fits
below the directory. -/
theorem restoreFile_pathText (dataDir : List UInt8) {path : List Name} (hne : path ≠ [])
    (hpath : ∀ name ∈ path, ProperName name)
    (hfits : (joined dataDir (pathText path)).length < 512) (fs : DataFiles)
    (fileData : List UInt8) :
    restoreFile dataDir fs (pathText path) fileData =
      fs.place (resolve dataDir ++ path) fileData := by
  obtain ⟨dir, name, rfl⟩ : ∃ dir name, path = dir ++ [name] :=
    ⟨path.dropLast, path.getLast hne, (List.dropLast_append_getLast hne).symm⟩
  have hbuf : pathBuf (joined dataDir (pathText (dir ++ [name]))) =
      joined dataDir (pathText (dir ++ [name])) := List.take_of_length_le (by omega)
  have hdirPath : dirPath (joined dataDir (pathText (dir ++ [name]))) =
      some (joined dataDir (pathText dir)) := by
    rw [pathText_append_name, joined_assoc, dirPath_joined (hpath name (by simp)).no_slash]
  have hdir : resolve (joined dataDir (pathText dir)) = resolve dataDir ++ dir :=
    resolve_joined_pathText dataDir fun other hother ↦ hpath other (List.mem_append_left _ hother)
  have hparent : (resolve dataDir ++ (dir ++ [name])).dropLast = resolve dataDir ++ dir := by
    rw [← List.append_assoc, List.dropLast_concat]
  simp only [restoreFile, hbuf, hdirPath, hdir, resolve_joined_pathText dataDir hpath,
    FileSystem.place, hparent]

/-! ### An import of an export -/

/-- The records of the files of a tree. -/
def Tree.archived (tree : Tree) : List UInt8 :=
  (tree.files []).flatMap fun entry ↦ archiveRecord (pathText entry.1) entry.2

theorem length_backupHeader (env : ExportEnv) (payloadLen : ℕ) :
    (backupHeader env payloadLen).length = 80 := by
  simp [backupHeader, backupMagic]

/-- The fields of a header are read back, whatever follows it. -/
theorem readAt_backupHeader (env : ExportEnv) (payloadLen : ℕ) (ct : List UInt8) :
    readAt 16 16 (backupHeader env payloadLen ++ ct) = env.salt ∧
      readAt 24 48 (backupHeader env payloadLen ++ ct) = env.nonce ∧
      readAt 8 72 (backupHeader env payloadLen ++ ct) = leBytes 8 payloadLen := by
  let start := backupMagic ++ [1, env.padding] ++ (leBytes 8 env.now).toList
  let middle := start ++ env.salt.toList ++ env.saltRest.toList
  have hsalt : backupHeader env payloadLen ++ ct = start ++ (env.salt.toList ++
      (env.saltRest.toList ++ env.nonce.toList ++ (leBytes 8 payloadLen).toList ++ ct)) := by
    simp [backupHeader, start]
  have hnonce : backupHeader env payloadLen ++ ct =
      middle ++ (env.nonce.toList ++ ((leBytes 8 payloadLen).toList ++ ct)) := by
    simp [backupHeader, start, middle]
  have hpayload : backupHeader env payloadLen ++ ct =
      (middle ++ env.nonce.toList) ++ ((leBytes 8 payloadLen).toList ++ ct) := by
    simp [backupHeader, start, middle]
  have hstart : start.length = 16 := by simp [start, backupMagic]
  have hmiddle : middle.length = 48 := by simp [middle, hstart]
  exact ⟨readAt_of_eq start env.salt hsalt hstart, readAt_of_eq middle env.nonce hnonce hmiddle,
    readAt_of_eq (middle ++ env.nonce.toList) (leBytes 8 payloadLen) hpayload (by simp [hmiddle])⟩

section Backup

variable {S : Sodium} {pwhash : Pwhash} {env : ExportEnv} {passphrase : List UInt8}

/-- What a successful export has written. -/
theorem koeBackupExport_eq {sourceDir : List UInt8} {tree : Tree}
    (hexport : (koeBackupExport S pwhash env passphrase sourceDir tree).1 = 0) :
    ∃ key ct, pwhash passphrase env.salt = some key ∧
      koeEncrypt S (archiveDir env.memory sourceDir [] tree ⟨[], 65536, 1⟩).data env.nonce key =
        some ct ∧
      (koeBackupExport S pwhash env passphrase sourceDir tree).2 =
        some (backupHeader env
          ((archiveDir env.memory sourceDir [] tree ⟨[], 65536, 1⟩).data.length + koeTagLen) ++
            ct) := by
  have hfails : (-1 : ℤ) ≠ 0 := by decide
  unfold koeBackupExport at hexport ⊢
  generalize archiveDir env.memory sourceDir [] tree ⟨[], 65536, 1⟩ = arc at hexport ⊢
  rcases hkey : pwhash passphrase env.salt with _ | key
  · simp only [hkey] at hexport
    split_ifs at hexport with hstart
    · exact absurd hexport hfails
    · exact absurd hexport hfails
  rcases hct : koeEncrypt S arc.data env.nonce key with _ | ct
  · simp only [hkey, hct] at hexport
    split_ifs at hexport with hstart hroom
    · exact absurd hexport hfails
    · exact absurd hexport hfails
    · exact absurd hexport hfails
  · simp only [hkey, hct] at hexport ⊢
    split_ifs at hexport ⊢ with hstart hroom hopens
    · exact absurd hexport hfails
    · exact absurd hexport hfails
    · exact absurd hexport hfails
    · exact ⟨key, ct, rfl, hct, rfl⟩

/-- An import decrypts what was encrypted under its passphrase, if there is memory. Assumes: a
correct AEAD, and a payload with a length of 64 bits. -/
theorem importPlain_sealed (haead : S.Aead) {key : Block 32} {plain ct : List UInt8}
    (hkey : pwhash passphrase env.salt = some key)
    (hct : koeEncrypt S plain env.nonce key = some ct) (hsize : plain.length + koeTagLen < 2 ^ 64)
    (importEnv : ImportEnv) :
    importPlain S pwhash importEnv (some (backupHeader env (plain.length + koeTagLen) ++ ct))
        passphrase =
      if importEnv.ctAlloc && importEnv.plainAlloc then some plain else none := by
  have hctLength : ct.length = plain.length + koeTagLen := haead.length_sealed hct
  have hheader := length_backupHeader env (plain.length + koeTagLen)
  obtain ⟨hsalt, hnonce, hread⟩ := readAt_backupHeader env (plain.length + koeTagLen) ct
  have hpayload : ofLeBytes (leBytes 8 (plain.length + koeTagLen)).toList =
      plain.length + koeTagLen := by
    rw [ofLeBytes_leBytes]
    exact Nat.mod_eq_of_lt hsize
  have hlength : (backupHeader env (plain.length + koeTagLen) ++ ct).length =
      80 + (plain.length + koeTagLen) := by
    rw [List.length_append, hheader, hctLength]
  have hmagic : (backupHeader env (plain.length + koeTagLen) ++ ct).take 6 = backupMagic := rfl
  have hrest : ((backupHeader env (plain.length + koeTagLen) ++ ct).drop 80).take
      (plain.length + koeTagLen) = ct := by
    rw [← hheader, List.drop_left, ← hctLength, List.take_length]
  have hplain : koeDecrypt S ct env.nonce key = some plain := koeDecrypt_koeEncrypt haead hct
  generalize backupHeader env (plain.length + koeTagLen) ++ ct = bytes at *
  have hstart : ¬ (bytes.length < 80 ∨ bytes.take 6 ≠ backupMagic) := by
    rw [not_or, not_not, hlength]
    exact ⟨by omega, hmagic⟩
  have hcomplete : ¬ bytes.length < 80 + (plain.length + koeTagLen) := hlength.not_lt
  rcases hctAlloc : importEnv.ctAlloc with _ | _
  · simp [importPlain, hstart, hctAlloc]
  · simp only [importPlain, if_neg hstart, hread, hpayload, hctAlloc, hcomplete, hrest, hsalt,
      hkey, hnonce, hplain]
    rcases importEnv.plainAlloc with _ | _
    · rfl
    · rfl

/-- An import reads back what was encrypted under its passphrase and walks through it, if there is
memory. Assumes: a correct AEAD, and a payload with a length of 64 bits. -/
theorem koeBackupImport_sealed (haead : S.Aead) {key : Block 32} {plain ct : List UInt8}
    (hkey : pwhash passphrase env.salt = some key)
    (hct : koeEncrypt S plain env.nonce key = some ct) (hsize : plain.length + koeTagLen < 2 ^ 64)
    (importEnv : ImportEnv) (dataDir : List UInt8) (fs : DataFiles) :
    koeBackupImport S pwhash importEnv (some (backupHeader env (plain.length + koeTagLen) ++ ct))
        passphrase dataDir fs =
      if importEnv.ctAlloc && importEnv.plainAlloc then
        (0, (extractFrom (restoreFile dataDir) importEnv.beyond plain plain.length 0 fs).2)
      else (-1, fs) := by
  rw [koeBackupImport, importPlain_sealed haead hkey hct hsize]
  split_ifs
  · rfl
  · rfl

/-- Assumes: a proper tree whose paths fit below a directory. -/
theorem archivable_files {tree : Tree} (hproper : tree.Proper) {dataDir : List UInt8}
    (hfits : tree.Fits (dataDir.length + 1)) {entry : List Name × List UInt8}
    (hentry : entry ∈ tree.files []) :
    Archivable (pathText entry.1) entry.2 ∧ (joined dataDir (pathText entry.1)).length < 512 := by
  obtain ⟨hnames, hsize⟩ := hproper.files (List.forall_mem_nil _) hentry
  have hbase : (joined dataDir (pathText [])).length = dataDir.length + 1 :=
    length_joined dataDir []
  have hlength := Tree.Fits.length_lt (hbase ▸ hfits) hentry
  refine ⟨⟨?_, ?_, ?_, ?_⟩, hlength⟩
  · obtain ⟨name, rest, hpath⟩ := List.exists_cons_of_ne_nil (Tree.files_ne_nil hentry)
    rw [hpath]
    exact List.cons_ne_nil slash _
  · rw [length_joined] at hlength
    omega
  · intro hzero
    obtain ⟨name, hname, hbyte⟩ := List.mem_flatMap.mp hzero
    rcases List.mem_cons.mp hbyte with hslash | hinside
    · exact absurd hslash (by decide)
    · exact (hnames name hname).no_zero hinside
  · unfold archiveFileMax at hsize
    omega

/-- The walk over the archive of a tree unpacks its files. Assumes: a proper tree whose paths fit
below the directory. -/
theorem extractFrom_archived {tree : Tree} (hproper : tree.Proper) {dataDir : List UInt8}
    (hfits : tree.Fits (dataDir.length + 1)) (beyond : List UInt8) (fs : DataFiles) :
    (extractFrom (restoreFile dataDir) beyond tree.archived tree.archived.length 0 fs).2 =
      fs.unpack (resolve dataDir) (tree.files []) := by
  let entries := (tree.files []).map fun entry ↦ (pathText entry.1, entry.2)
  have harchived : tree.archived =
      entries.flatMap fun entry ↦ archiveRecord entry.1 entry.2 := by
    rw [Tree.archived, List.flatMap_map]
  have hentries : ∀ entry ∈ entries, Archivable entry.1 entry.2 := by
    intro entry hentry
    obtain ⟨source, hsource, rfl⟩ := List.mem_map.mp hentry
    exact (archivable_files hproper hfits hsource).1
  have hfuel : entries.length ≤ tree.archived.length := by
    rw [harchived, List.length_flatMap, ← List.length_map]
    refine (List.length_le_sum_of_one_le _ ?_)
    intro length hlength
    obtain ⟨entry, -, rfl⟩ := List.mem_map.mp hlength
    rw [length_archiveRecord]
    omega
  have hvisits := extractFrom_records (restoreFile dataDir) beyond entries hentries [] _ fs hfuel
  rw [List.nil_append, ← harchived] at hvisits
  refine (congrArg Prod.snd hvisits).trans ?_
  rw [List.foldl_map, FileSystem.unpack]
  refine List.foldl_ext _ _ _ ?_
  intro fs entry hentry
  have hnames := (hproper.files (List.forall_mem_nil _) hentry).1
  exact restoreFile_pathText dataDir (Tree.files_ne_nil hentry) hnames
    (archivable_files hproper hfits hentry).2 fs entry.2

/-- An import of an export unpacks the files of the tree, if there is memory for the import.
Assumes: a correct AEAD, a proper tree whose paths fit below both directories, memory for the
export, an archive with a length of 64 bits, and an export that succeeded. -/
theorem koeBackupImport_exported (haead : S.Aead) {tree : Tree} (hproper : tree.Proper)
    {sourceDir dataDir : List UInt8} (hsource : tree.Fits (sourceDir.length + 1))
    (htarget : tree.Fits (dataDir.length + 1)) (hmemory : ∀ i, env.memory i = true)
    (hsize : tree.archived.length + koeTagLen < 2 ^ 64)
    (hexport : (koeBackupExport S pwhash env passphrase sourceDir tree).1 = 0)
    (importEnv : ImportEnv) (fs : DataFiles) :
    koeBackupImport S pwhash importEnv
        (koeBackupExport S pwhash env passphrase sourceDir tree).2 passphrase dataDir fs =
      if importEnv.ctAlloc && importEnv.plainAlloc then
        (0, fs.unpack (resolve dataDir) (tree.files []))
      else (-1, fs) := by
  have harchive : (archiveDir env.memory sourceDir [] tree ⟨[], 65536, 1⟩).data =
      tree.archived := by
    have hbase : (joined sourceDir (pathText [])).length = sourceDir.length + 1 :=
      length_joined sourceDir []
    exact archiveDir_data hmemory sourceDir tree [] ⟨[], 65536, 1⟩ hproper (hbase ▸ hsource)
  obtain ⟨key, ct, hkey, hct, hwritten⟩ := koeBackupExport_eq hexport
  rw [harchive] at hct hwritten
  rw [hwritten, koeBackupImport_sealed haead hkey hct hsize,
    extractFrom_archived hproper htarget]

/-- Everything is restored exactly when every file is at most one directory below the top, or a file
before it in the archive is in the same directory or in the one above. Assumes: a correct AEAD, a
proper tree whose paths fit below both directories, memory for the export, an archive with a length
of 64 bits, an empty target directory, and an export and an import that succeeded. -/
theorem koeBackup_restores_iff (haead : S.Aead) {tree : Tree} (hproper : tree.Proper)
    {sourceDir dataDir : List UInt8} (hsource : tree.Fits (sourceDir.length + 1))
    (htarget : tree.Fits (dataDir.length + 1)) (hmemory : ∀ i, env.memory i = true)
    (hsize : tree.archived.length + koeTagLen < 2 ^ 64)
    (hexport : (koeBackupExport S pwhash env passphrase sourceDir tree).1 = 0)
    {importEnv : ImportEnv} {fs : DataFiles} (hempty : fs.EmptyAt (resolve dataDir))
    (himport : (koeBackupImport S pwhash importEnv
      (koeBackupExport S pwhash env passphrase sourceDir tree).2 passphrase dataDir fs).1 = 0) :
    (∀ entry ∈ tree.files [],
        (koeBackupImport S pwhash importEnv
          (koeBackupExport S pwhash env passphrase sourceDir tree).2 passphrase dataDir
          fs).2.files (resolve dataDir ++ entry.1) = some entry.2) ↔
      ∀ front entry back, tree.files [] = front ++ entry :: back → Placed front entry := by
  rw [koeBackupImport_exported haead hproper hsource htarget hmemory hsize hexport] at himport ⊢
  split_ifs at himport ⊢ with hroom
  · exact hempty.unpack_complete_iff (fun entry ↦ Tree.files_ne_nil) (hproper.nodup_files [])
  · exact absurd himport (show ¬ (-1 : ℤ) = 0 by decide)

end Backup

/-- A file with two bytes in it. -/
def noteFile (rest : Tree) : Tree := .file [0x66] (some [0x68, 0x69]) rest

/-- The files `/a/f` and `/a/b/f`, when the system lists the file of `/a` first. -/
def fileFirst : Tree := .dir [0x61] (noteFile (.dir [0x62] (noteFile .nil) .nil)) .nil

/-- The same files, when the system lists the directory in `/a` first. -/
def dirFirst : Tree := .dir [0x61] (.dir [0x62] (noteFile .nil) (noteFile .nil)) .nil

/-- An export to which the environment grants everything. -/
def smoothExport : ExportEnv :=
  ⟨fun _ ↦ true, Block.zero 16, Block.zero 24, 0, true, 0, Block.zero 16⟩

/-- The backup of a tree in the directory `s`. -/
def smoothBackup (tree : Tree) : ℤ × Option (List UInt8) :=
  koeBackupExport Sodium.transparent plainPwhash smoothExport [] [0x73] tree

/-- An empty directory `t`. -/
def emptyTarget : DataFiles := ⟨[[], [[0x74]]], fun _ ↦ none⟩

/-- The import of a backup into the directory `t`. -/
def smoothRestore (tree : Tree) : ℤ × DataFiles :=
  koeBackupImport Sodium.transparent plainPwhash ⟨true, true, []⟩ (smoothBackup tree).2 [] [0x74]
    emptyTarget

theorem smoothBackup_eq_zero (tree : Tree) : (smoothBackup tree).1 = 0 := by
  obtain ⟨ct, hct⟩ := Sodium.transparent_aead.seals (Block.zero 32) (Block.zero 24)
    (archiveDir (fun _ ↦ true) [0x73] [] tree ⟨[], 65536, 1⟩).data
  simp [smoothBackup, koeBackupExport, smoothExport, plainPwhash, koeEncrypt, hct]

/-- Assumes: a proper tree whose paths fit, and an archive with a length of 64 bits. -/
theorem smoothRestore_eq {tree : Tree} (hproper : tree.Proper) (hfits : tree.Fits 2)
    (hsize : tree.archived.length + koeTagLen < 2 ^ 64) :
    smoothRestore tree = (0, emptyTarget.unpack (resolve [0x74]) (tree.files [])) := by
  have hsource : tree.Fits (([0x73] : List UInt8).length + 1) := hfits
  have htarget : tree.Fits (([0x74] : List UInt8).length + 1) := hfits
  have hmemory : ∀ i, smoothExport.memory i = true := fun _ ↦ rfl
  exact koeBackupImport_exported Sodium.transparent_aead hproper hsource htarget hmemory hsize
    (smoothBackup_eq_zero tree) ⟨true, true, []⟩ emptyTarget

/-- Assumes: a character behind the slash, as all letters are. -/
theorem properName_singleton {byte : UInt8} (hbehind : slash < byte) : ProperName [byte] where
  ne_nil := List.cons_ne_nil byte []
  no_dot := by
    intro heq
    rw [Option.some.inj heq] at hbehind
    exact absurd hbehind (by decide)
  no_slash := fun hmem ↦ absurd (List.mem_singleton.mp hmem) (UInt8.ne_of_lt hbehind)
  no_zero := by
    intro hmem
    rw [← List.mem_singleton.mp hmem] at hbehind
    exact absurd hbehind (by decide)

theorem proper_noteFile {rest : Tree} (hfresh : [0x66] ∉ rest.names) (hrest : rest.Proper) :
    (noteFile rest).Proper :=
  ⟨⟨properName_singleton (by decide), hfresh⟩,
    ⟨[0x68, 0x69], rfl, by decide⟩, hrest⟩

theorem emptyAt_emptyTarget : emptyTarget.EmptyAt (resolve [0x74]) where
  top_mem := by decide
  dirs_below := by
    have htop : resolve [0x74] = [[0x74]] := by decide
    intro rel hrel
    simpa [htop, emptyTarget] using hrel
  files_below := fun _ ↦ rfl

theorem proper_noteFile_nil : (noteFile .nil).Proper := proper_noteFile List.not_mem_nil trivial

/-- When the system lists the file of `/a` first, everything is restored. -/
theorem fileFirst_restored :
    (smoothBackup fileFirst).1 = 0 ∧ (smoothRestore fileFirst).1 = 0 ∧
      ∀ entry ∈ fileFirst.files [],
        (smoothRestore fileFirst).2.files (resolve [0x74] ++ entry.1) = some entry.2 := by
  have hinner : (noteFile (.dir [0x62] (noteFile .nil) .nil)).Proper :=
    proper_noteFile (by decide)
      ⟨⟨properName_singleton (by decide), List.not_mem_nil⟩, proper_noteFile_nil, trivial⟩
  have hproper : fileFirst.Proper :=
    ⟨⟨properName_singleton (by decide), List.not_mem_nil⟩, hinner, trivial⟩
  have hsource : fileFirst.Fits (([0x73] : List UInt8).length + 1) := by
    simp [fileFirst, noteFile, Tree.Fits]
  have htarget : fileFirst.Fits (([0x74] : List UInt8).length + 1) := hsource
  have hmemory : ∀ i, smoothExport.memory i = true := fun _ ↦ rfl
  have hsize : fileFirst.archived.length + koeTagLen < 2 ^ 64 := by decide
  have himport : (smoothRestore fileFirst).1 = 0 := by rw [smoothRestore_eq hproper hsource hsize]
  have hrestores := koeBackup_restores_iff Sodium.transparent_aead hproper hsource htarget hmemory
    hsize (smoothBackup_eq_zero fileFirst) emptyAt_emptyTarget himport
  refine ⟨smoothBackup_eq_zero fileFirst, himport, ?_⟩
  unfold smoothRestore smoothBackup
  refine hrestores.mpr ?_
  intro front entry back hsplit
  rcases front with _ | ⟨first, front⟩
  · obtain ⟨rfl, -⟩ := List.cons.inj hsplit
    exact Or.inl (by decide)
  · obtain ⟨rfl, hlater⟩ := List.cons.inj hsplit
    rcases front with _ | ⟨second, front⟩
    · obtain ⟨rfl, -⟩ := List.cons.inj hlater
      exact Or.inr ⟨_, List.mem_cons_self, Or.inr rfl⟩
    · have hnone := (List.cons.inj hlater).2
      have hsome := List.append_ne_nil_of_right_ne_nil front (List.cons_ne_nil entry back)
      exact absurd hnone.symm hsome

/-- When the system lists the directory first, both calls succeed and the file in it is missing. -/
theorem koeBackup_loses_file :
    dirFirst.Proper ∧ dirFirst.Fits 2 ∧ emptyTarget.EmptyAt (resolve [0x74]) ∧
      (smoothBackup dirFirst).1 = 0 ∧ (smoothRestore dirFirst).1 = 0 ∧
      ([[0x61], [0x62], [0x66]], [0x68, 0x69]) ∈ dirFirst.files [] ∧
      (smoothRestore dirFirst).2.files (resolve [0x74] ++ [[0x61], [0x62], [0x66]]) = none := by
  have hproper : dirFirst.Proper := ⟨⟨properName_singleton (by decide), List.not_mem_nil⟩,
    ⟨⟨properName_singleton (by decide), by decide⟩, proper_noteFile_nil, proper_noteFile_nil⟩,
    trivial⟩
  have hfits : dirFirst.Fits 2 := by simp [dirFirst, noteFile, Tree.Fits]
  have hrestore := smoothRestore_eq hproper hfits (by decide)
  refine ⟨hproper, hfits, emptyAt_emptyTarget, smoothBackup_eq_zero dirFirst, ?_, ?_, ?_⟩
  · rw [hrestore]
  · exact List.mem_cons_self
  · rw [hrestore]
    decide

end KoeCore
