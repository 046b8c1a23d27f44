import KoeCore.Backup.Strictness

/-!
# Where an import writes

`koe_backup_import` puts the path of a record behind the data directory and hands the text to
`mkdir` and `fopen`. It does not look at the names in the path. `importCalls` lists these calls, and
`koeBackupImport_calls` says that the import does nothing else to the files.

Read from left to right, a path climbs some number of directories above the place where it starts
and then goes down by some names: its `Route`. This is all that matters for where it leads
(`foldl_enter`). A path that starts in the data directory leads to a place inside it exactly when it
climbs no further than it comes back, by the names of the directories that it climbed out of
(`prefix_lead_iff`). `koeBackupImport_contained_iff` is the resulting condition on the records that
an import visits.
-/

set_option autoImplicit false
set_option relaxedAutoImplicit false

namespace KoeCore

open ByteWire Directory

/-! ### The calls of an import -/

/-- A call that an import makes to change the files. -/
inductive FileCall
  | mkdir (path : List UInt8)
  | write (path fileData : List UInt8)
deriving DecidableEq

/-- The path that the call is made with. -/
def FileCall.path : FileCall → List UInt8
  | .mkdir path => path
  | .write path _ => path

/-- What the call does to the files. -/
def FileCall.run (fs : DataFiles) : FileCall → DataFiles
  | .mkdir path => fs.mkdir (resolve path)
  | .write path fileData => fs.write (resolve path) fileData

/-- The calls for one record. -/
def restoreCalls (dataDir relPath fileData : List UInt8) : List FileCall :=
  let absPath := pathBuf (joined dataDir relPath)
  ((dirPath absPath).map FileCall.mkdir).toList ++ [.write absPath fileData]

/-- The records that the loop visits. -/
def visitedRecords (beyond plain : List UInt8) : List (List UInt8 × List UInt8) :=
  (extractFrom visitedEntries beyond plain plain.length 0 []).2

/-- The calls of an import, in order. -/
def importCalls (S : Sodium) (pwhash : Pwhash) (env : ImportEnv) (backup : Option (List UInt8))
    (passphrase dataDir : List UInt8) : List FileCall :=
  match importPlain S pwhash env backup passphrase with
  | none => []
  | some plain =>
    (visitedRecords env.beyond plain).flatMap fun entry ↦ restoreCalls dataDir entry.1 entry.2

theorem restoreFile_eq_foldl (dataDir : List UInt8) (fs : DataFiles)
    (relPath fileData : List UInt8) :
    restoreFile dataDir fs relPath fileData =
      (restoreCalls dataDir relPath fileData).foldl FileCall.run fs := by
  simp only [restoreFile, restoreCalls]
  rcases dirPath (pathBuf (joined dataDir relPath)) with _ | dir
  · rfl
  · rfl

/-- An import does to the files what its calls do, and nothing else. -/
theorem koeBackupImport_calls (S : Sodium) (pwhash : Pwhash) (env : ImportEnv)
    (backup : Option (List UInt8)) (passphrase dataDir : List UInt8) (fs : DataFiles) :
    (koeBackupImport S pwhash env backup passphrase dataDir fs).2 =
      (importCalls S pwhash env backup passphrase dataDir).foldl FileCall.run fs := by
  rw [koeBackupImport, importCalls]
  rcases importPlain S pwhash env backup passphrase with _ | plain
  · rfl
  · let callsOf (visited : List (List UInt8 × List UInt8)) : List FileCall :=
      visited.flatMap fun entry ↦ restoreCalls dataDir entry.1 entry.2
    have hvisit : ∀ visited relPath fileData,
        (callsOf (visitedEntries visited relPath fileData)).foldl FileCall.run fs =
          restoreFile dataDir ((callsOf visited).foldl FileCall.run fs) relPath fileData := by
      intro visited relPath fileData
      simp only [callsOf, visitedEntries, List.flatMap_append, List.foldl_append,
        List.flatMap_singleton, restoreFile_eq_foldl]
    exact (map_extractFrom visitedEntries env.beyond
      (fun visited ↦ (callsOf visited).foldl FileCall.run fs) hvisit plain plain.length 0 []).symm

/-! ### Where a path leads -/

/-- The location that a path denotes for a process in the directory `cwd`. -/
def locate (cwd : List Name) (path : List UInt8) : List Name :=
  (path.splitOnP (· == slash)).foldl enter (if path.head? = some slash then [] else cwd)

/-- What a path does: it climbs out of some directories and then goes down by some names. -/
structure Route where
  up : ℕ
  down : List Name
deriving DecidableEq

/-- The route with one more component. -/
def Route.extend (route : Route) (name : Name) : Route :=
  if name = [] ∨ name = [dot] then route
  else if name = [dot, dot] then
    if route.down = [] then ⟨route.up + 1, []⟩ else ⟨route.up, route.down.dropLast⟩
  else ⟨route.up, route.down ++ [name]⟩

/-- The route of the components of a path. -/
def routeOf (names : List Name) : Route := names.foldl Route.extend ⟨0, []⟩

/-- The place that the route leads to from a directory. There is nothing above the top. -/
def Route.lead (route : Route) (start : List Name) : List Name :=
  start.take (start.length - route.up) ++ route.down

/-- The route ends inside the directory it starts in: the names it goes down by begin with those of
the directories that it has climbed out of. -/
def Route.Returns (route : Route) (start : List Name) : Prop :=
  start.drop (start.length - route.up) <+: route.down

instance decidableReturns (route : Route) (start : List Name) : Decidable (route.Returns start) :=
  inferInstanceAs (Decidable (_ <+: _))

theorem Route.lead_extend (route : Route) (start : List Name) (name : Name) :
    (route.extend name).lead start = enter (route.lead start) name := by
  unfold Route.extend enter
  split_ifs with hstay hclimb htop
  · rfl
  · have hshorter : min (min (start.length - route.up) start.length - 1)
        (start.length - route.up) = start.length - (route.up + 1) := by omega
    simp only [Route.lead, htop, List.append_nil, List.dropLast_eq_take, List.length_take,
      List.take_take, hshorter]
  · rw [Route.lead, Route.lead, List.dropLast_append_of_ne_nil htop]
  · rw [Route.lead, Route.lead, List.append_assoc]

/-- The components of a path lead where its route leads. -/
theorem foldl_enter (names start : List Name) :
    names.foldl enter start = (routeOf names).lead start := by
  induction names using List.reverseRecOn with
  | nil =>
    change start = start.take (start.length - 0) ++ []
    rw [Nat.sub_zero, List.take_length, List.append_nil]
  | append_singleton names name ih =>
    have hroute : routeOf (names ++ [name]) = (routeOf names).extend name := by
      rw [routeOf, List.foldl_append]
      rfl
    rw [List.foldl_append, ih, hroute, Route.lead_extend]
    rfl

theorem prefix_lead_iff (route : Route) (start : List Name) :
    start <+: route.lead start ↔ route.Returns start := by
  have hsplit : start.take (start.length - route.up) ++ start.drop (start.length - route.up) =
      start := List.take_append_drop _ _
  rw [Route.lead, Route.Returns]
  nth_rewrite 1 [← hsplit]
  exact List.prefix_append_right_inj _

/-! ### Paths behind a directory -/

/-- Assumes: a directory with a name. -/
theorem locate_joined {dir : List UInt8} (hdir : dir ≠ []) (cwd : List Name)
    (relPath : List UInt8) :
    locate cwd (joined dir relPath) =
      (routeOf (relPath.splitOnP (· == slash))).lead (locate cwd dir) := by
  have hhead : (joined dir relPath).head? = dir.head? := List.head?_append_of_ne_nil dir hdir
  rw [locate, hhead, splitOnP_joined, List.foldl_append, foldl_enter, locate]

/-- The directory of a path that has one, and the name behind it. Assumes: a path with a slash. -/
theorem dirPath_inv {path dir : List UInt8} (hdir : dirPath path = some dir) :
    ∃ name, slash ∉ name ∧ path = joined dir name := by
  have hmem : slash ∈ path := by
    by_contra hnone
    rw [dirPath, if_neg hnone] at hdir
    exact absurd hdir (Option.some_ne_none dir).symm
  obtain ⟨name, hname, hsplit⟩ : ∃ name, slash ∉ name ∧
      path.reverse = name ++ path.reverse.dropWhile (· ≠ slash) := by
    refine ⟨path.reverse.takeWhile (· ≠ slash), ?_, List.takeWhile_append_dropWhile.symm⟩
    intro hslash
    have htaken := List.mem_takeWhile_imp hslash
    exact absurd rfl (of_decide_eq_true htaken)
  obtain ⟨head, tail, hrest⟩ : ∃ head tail, path.reverse.dropWhile (· ≠ slash) = head :: tail := by
    apply List.exists_cons_of_ne_nil
    intro hnil
    rw [hnil, List.append_nil] at hsplit
    exact hname (hsplit ▸ List.mem_reverse.mpr hmem)
  have hhead : head = slash := by
    have hfails := List.head_dropWhile_not (fun byte ↦ decide (byte ≠ slash))
      (hrest ▸ List.cons_ne_nil head tail)
    simp only [hrest, List.head_cons] at hfails
    exact not_not.mp (of_decide_eq_false hfails)
  rw [dirPath, if_pos hmem, hrest, List.tail_cons] at hdir
  refine ⟨name.reverse, fun hslash ↦ hname (List.mem_reverse.mp hslash), ?_⟩
  rw [← Option.some.inj hdir, joined, ← List.reverse_reverse path, hsplit, hrest, hhead,
    List.reverse_append, List.reverse_cons, List.append_assoc]
  rfl

/-- The directory of a path behind a directory. Assumes: a directory with a name. -/
theorem locate_dirPath_joined {dir : List UInt8} (hdir : dir ≠ []) (cwd : List Name)
    (relPath : List UInt8) :
    ∃ parent, dirPath (joined dir relPath) = some parent ∧ locate cwd parent =
      (routeOf (relPath.splitOnP (· == slash)).dropLast).lead (locate cwd dir) := by
  rcases hrel : dirPath relPath with _ | relDir
  · have hslash : slash ∉ relPath := by
      intro hmem
      rw [dirPath, if_pos hmem] at hrel
      exact absurd hrel (Option.some_ne_none _)
    refine ⟨dir, dirPath_joined hslash dir, ?_⟩
    rw [splitOnP_name hslash]
    exact foldl_enter [] (locate cwd dir)
  · obtain ⟨name, hslash, rfl⟩ := dirPath_inv hrel
    refine ⟨joined dir relDir, ?_, ?_⟩
    · rw [joined_assoc, dirPath_joined hslash]
    · rw [splitOnP_joined, splitOnP_name hslash, List.dropLast_concat, locate_joined hdir]

/-! ### The condition on a record -/

/-- The directory part of a path denotes a place inside the one that the path denotes: there is no
such part, or the last name of the path does not go down. A path with its only slash in front has
the empty text for its directory part, which denotes the directory of the process. -/
def EndsFlat (cwd : List Name) (path : List UInt8) : Prop :=
  match dirPath path with
  | none => True
  | some [] => enter [] (path.drop 1) <+: cwd
  | some dir => path.drop (dir.length + 1) ∈ [[], [dot], [dot, dot]]

/-- The record is unpacked inside the data directory. Behind a directory that leaves room in the
buffer this depends on the route of the path, as far as it fits into the buffer, and on the route
without its last component. The route starts at the top if the name of the directory is empty. The
name of a directory of 511 bytes is all that the buffer holds, and of a longer one it holds the
first 511 bytes, so that nothing depends on the record. -/
def Contained (cwd : List Name) (dataDir relPath : List UInt8) : Prop :=
  let names := (relPath.take (510 - dataDir.length)).splitOnP (· == slash)
  if dataDir = [] then
    cwd <+: (routeOf names).down ∧
      (slash ∈ relPath.take 510 → cwd <+: (routeOf names.dropLast).down)
  else if dataDir.length < 511 then
    (routeOf names).Returns (locate cwd dataDir) ∧
      (routeOf names.dropLast).Returns (locate cwd dataDir)
  else if dataDir.length = 511 then EndsFlat cwd dataDir
  else
    locate cwd dataDir <+: locate cwd (dataDir.take 511) ∧
      ∀ dir, dirPath (dataDir.take 511) = some dir → locate cwd dataDir <+: locate cwd dir

theorem forall_restoreCalls (p : List UInt8 → Prop) (dataDir relPath fileData : List UInt8) :
    (∀ call ∈ restoreCalls dataDir relPath fileData, p call.path) ↔
      p (pathBuf (joined dataDir relPath)) ∧
        ∀ dir, dirPath (pathBuf (joined dataDir relPath)) = some dir → p dir := by
  simp only [restoreCalls]
  rcases dirPath (pathBuf (joined dataDir relPath)) with _ | dir
  · simp [FileCall.path]
  · simp [FileCall.path, and_comm]

theorem enter_prefix_iff (dir : List Name) (name : Name) :
    enter dir name <+: dir ↔ name ∈ [[], [dot], [dot, dot]] := by
  unfold enter
  split_ifs with hstay hclimb
  · refine iff_of_true (List.prefix_refl dir) ?_
    rcases hstay with rfl | rfl
    · exact List.mem_cons_self
    · exact List.mem_cons_of_mem _ List.mem_cons_self
  · exact iff_of_true (List.dropLast_prefix dir) (by simp [hclimb])
  · refine iff_of_false ?_ ?_
    · intro hlonger
      have hle := hlonger.length_le
      rw [List.length_append, List.length_singleton] at hle
      omega
    · simpa [not_or, hclimb] using hstay

theorem endsFlat_iff (cwd : List Name) (path : List UInt8) :
    (∀ dir, dirPath path = some dir → locate cwd path <+: locate cwd dir) ↔
      EndsFlat cwd path := by
  rw [EndsFlat]
  rcases hdir : dirPath path with _ | dir
  · simp
  · obtain ⟨name, hslash, rfl⟩ := dirPath_inv hdir
    simp only [Option.some.injEq, forall_eq']
    rcases dir with _ | ⟨byte, dir⟩
    · have hplace : locate cwd (joined [] name) = enter [] name := by
        rw [locate, splitOnP_joined, splitOnP_name hslash]
        rfl
      rw [hplace]
      rfl
    · have hplace : locate cwd (joined (byte :: dir) name) =
          enter (locate cwd (byte :: dir)) name := by
        rw [locate_joined (List.cons_ne_nil byte dir), splitOnP_name hslash, ← foldl_enter]
        rfl
      have hname : (joined (byte :: dir) name).drop ((byte :: dir).length + 1) = name := by
        rw [joined, ← List.drop_drop, List.drop_left]
        rfl
      rw [hplace, enter_prefix_iff]
      dsimp only
      rw [hname]

/-- The paths of a record behind an empty name. -/
theorem locate_top (cwd : List Name) (relPath : List UInt8) :
    locate cwd (slash :: relPath) = (routeOf (relPath.splitOnP (· == slash))).down := by
  have hsplit : (slash :: relPath).splitOnP (· == slash) =
      [] :: relPath.splitOnP (· == slash) := splitOnP_joined [] relPath
  have hhead : (slash :: relPath).head? = some slash := rfl
  -- The empty name in front of the slash changes nothing, and there is nothing to climb out of.
  have hlead : (relPath.splitOnP (· == slash)).foldl enter (enter [] []) =
      (routeOf (relPath.splitOnP (· == slash))).lead [] := foldl_enter _ []
  rw [locate, if_pos hhead, hsplit, List.foldl_cons, hlead, Route.lead, List.take_nil]
  rfl

/-- The directory part of the same. -/
theorem locate_dirPath_top (cwd : List Name) (relPath : List UInt8) :
    (∀ dir, dirPath (slash :: relPath) = some dir → cwd <+: locate cwd dir) ↔
      (slash ∈ relPath → cwd <+: (routeOf (relPath.splitOnP (· == slash)).dropLast).down) := by
  by_cases hmem : slash ∈ relPath
  · obtain ⟨relDir, hrel⟩ : ∃ relDir, dirPath relPath = some relDir := by
      rw [dirPath, if_pos hmem]
      exact ⟨_, rfl⟩
    obtain ⟨name, hslash, rfl⟩ := dirPath_inv hrel
    have hdir : dirPath (slash :: joined relDir name) = some (slash :: relDir) :=
      dirPath_joined hslash (slash :: relDir)
    simp only [hdir, Option.some.injEq, forall_eq', locate_top, hmem, true_implies,
      splitOnP_joined, splitOnP_name hslash, List.dropLast_concat]
  · have hdir : dirPath (slash :: relPath) = some [] := dirPath_joined hmem []
    simp only [hdir, Option.some.injEq, forall_eq', hmem, false_implies, iff_true]
    exact List.prefix_refl cwd

theorem restoreCalls_inside_iff (cwd : List Name) (dataDir relPath fileData : List UInt8) :
    (∀ call ∈ restoreCalls dataDir relPath fileData,
        locate cwd dataDir <+: locate cwd call.path) ↔
      Contained cwd dataDir relPath := by
  rw [forall_restoreCalls fun path ↦ locate cwd dataDir <+: locate cwd path, Contained]
  split_ifs with hempty hroom hfull
  · subst hempty
    have hcut : pathBuf (joined [] relPath) = slash :: relPath.take 510 := rfl
    have hhere : locate cwd [] = cwd := rfl
    rw [hcut, hhere, locate_top, locate_dirPath_top]
    rfl
  · have hcut : pathBuf (joined dataDir relPath) =
        joined dataDir (relPath.take (510 - dataDir.length)) := by
      have hrest : 511 - dataDir.length = (510 - dataDir.length) + 1 := by omega
      rw [pathBuf, joined, List.take_append, List.take_of_length_le (by omega), hrest,
        List.take_succ_cons, joined]
    obtain ⟨parent, hparent, hlocated⟩ :=
      locate_dirPath_joined hempty cwd (relPath.take (510 - dataDir.length))
    simp only [hcut, hparent, Option.some.injEq, forall_eq', hlocated, locate_joined hempty,
      prefix_lead_iff]
  · have hcut : pathBuf (joined dataDir relPath) = dataDir := by
      rw [pathBuf, joined, ← hfull, List.take_left]
    rw [hcut, endsFlat_iff]
    exact and_iff_right (List.prefix_refl _)
  · have hcut : pathBuf (joined dataDir relPath) = dataDir.take 511 := by
      rw [pathBuf, joined, List.take_append_of_le_length (by omega)]
    rw [hcut]

/-- Every path that an import passes to `mkdir` or opens for writing is inside the data directory
exactly when each record that it visits is contained. Assumes: an import that decrypts a
plaintext. -/
theorem koeBackupImport_contained_iff {S : Sodium} {pwhash : Pwhash} {env : ImportEnv}
    {backup : Option (List UInt8)} {passphrase plain : List UInt8}
    (hplain : importPlain S pwhash env backup passphrase = some plain) (cwd : List Name)
    (dataDir : List UInt8) :
    (∀ call ∈ importCalls S pwhash env backup passphrase dataDir,
        locate cwd dataDir <+: locate cwd call.path) ↔
      ∀ entry ∈ visitedRecords env.beyond plain, Contained cwd dataDir entry.1 := by
  rw [importCalls, hplain]
  simp only [List.mem_flatMap, forall_exists_index, and_imp]
  constructor
  · intro hinside entry hentry
    rw [← restoreCalls_inside_iff cwd dataDir entry.1 entry.2]
    intro call hcall
    exact hinside call entry hentry hcall
  · intro hcontained call entry hentry
    exact (restoreCalls_inside_iff cwd dataDir entry.1 entry.2).mpr (hcontained entry hentry) call

/-- The archive of the files `a` and `b` is unpacked inside the directory `t`. -/
theorem twoEntries_contained :
    let plain := twoEntries.flatMap fun entry ↦ archiveRecord entry.1 entry.2
    importPlain Sodium.transparent plainPwhash smoothImport (some (sealedBackup plain)) [] =
        some plain ∧
      ∀ call ∈ importCalls Sodium.transparent plainPwhash smoothImport (some (sealedBackup plain))
          [] [0x74],
        locate [] [0x74] <+: locate [] call.path := by
  intro plain
  have hplain := importPlain_sealedBackup plain (by decide)
  have hvisited : visitedRecords smoothImport.beyond plain = twoEntries := by decide
  refine ⟨hplain, (koeBackupImport_contained_iff hplain [] [0x74]).mpr ?_⟩
  intro entry hentry
  rw [hvisited] at hentry
  rw [Contained, if_neg (by decide), if_pos (by decide)]
  rcases List.mem_cons.mp hentry with rfl | hlast
  · decide
  · rw [List.mem_singleton.mp hlast]
    decide

/-- The record of a file `../x`. -/
def climbingArchive : List UInt8 := archiveRecord [dot, dot, slash, 0x78] [1]

/-- An import into the directory `t` writes the file `x` next to it. -/
theorem climbingArchive_escapes :
    importPlain Sodium.transparent plainPwhash smoothImport (some (sealedBackup climbingArchive))
        [] = some climbingArchive ∧
      FileCall.write [0x74, slash, dot, dot, slash, 0x78] [1] ∈
        importCalls Sodium.transparent plainPwhash smoothImport
          (some (sealedBackup climbingArchive)) [] [0x74] ∧
      locate [] [0x74, slash, dot, dot, slash, 0x78] = [[0x78]] ∧
      locate [] [0x74] = [[0x74]] ∧ ¬ locate [] [0x74] <+: [[0x78]] := by
  have hplain := importPlain_sealedBackup climbingArchive (by decide)
  refine ⟨hplain, ?_, by decide, by decide, by decide⟩
  rw [importCalls, hplain]
  decide

end KoeCore
