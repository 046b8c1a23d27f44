import KoeCore.Library.Wire

/-!
# The archive of a directory tree

The archiving half of `koe_backup.c`: a directory tree is walked in the order in which the system
lists it, and every regular file is appended to a buffer as the length of its path, the path, the
length of its contents and the contents. The lengths are copied as they lie in memory. A file that
cannot be read, is larger than 64 MiB or has a name that starts with a dot is left out.

Memory is given out request by request, as `Memory` says. A piece for which the buffer cannot grow
is dropped, and nobody looks at the return code. Sizes of buffers in memory are taken not to wrap
around.

`archiveDir_data` says what the buffer holds when there is memory: the records of the files of the
tree, in order.
-/

set_option autoImplicit false
set_option relaxedAutoImplicit false

namespace KoeCore

open ByteWire

/-- Whether the `i`-th request for memory is granted. -/
abbrev Memory := ℕ → Bool

/-- `koe_archive_t`, and the number of requests for memory so far. The bytes in use are `data`. -/
structure Archive where
  data : List UInt8
  cap : ℕ
  asked : ℕ

/-- The return code, and the archive after the call. -/
def archiveAppend (memory : Memory) (a : Archive) (bytes : List UInt8) : ℤ × Archive :=
  if a.data.length + bytes.length > a.cap then
    if !memory a.asked then (-1, { a with asked := a.asked + 1 })
    else (0, ⟨a.data ++ bytes, (a.cap + bytes.length) * 2, a.asked + 1⟩)
  else (0, { a with data := a.data ++ bytes })

/-- The largest file that is archived, 64 MiB. -/
def archiveFileMax : ℕ := 64 * 1024 * 1024

/-- The second half of `archive_file`, which appends the record of a file that was read. -/
def appendRecord (memory : Memory) (a : Archive) (relPath fileData : List UInt8) : Archive :=
  let pathLen := relPath.length % 2 ^ 16
  let dataLen := fileData.length % 2 ^ 32
  let a := (archiveAppend memory a (leBytes 2 pathLen).toList).2
  let a := (archiveAppend memory a (relPath.take pathLen)).2
  let a := (archiveAppend memory a (leBytes 4 dataLen).toList).2
  (archiveAppend memory a (fileData.take dataLen)).2

/-- The return code, and the archive after the call, given the contents of the file if it can be
read. -/
def archiveFile (memory : Memory) (a : Archive) (relPath : List UInt8)
    (contents : Option (List UInt8)) : ℤ × Archive :=
  match contents with
  | none => (0, a)
  | some fileData =>
    if fileData.length > archiveFileMax then (0, a)
    else if !memory a.asked then (-1, { a with asked := a.asked + 1 })
    else (0, appendRecord memory { a with asked := a.asked + 1 } relPath fileData)

/-- Assumes: a file that is not too large, and memory for it. -/
theorem archiveFile_eq {memory : Memory} {a : Archive} {fileData : List UInt8}
    (hsize : fileData.length ≤ archiveFileMax) (hread : memory a.asked = true)
    (relPath : List UInt8) :
    archiveFile memory a relPath (some fileData) =
      (0, appendRecord memory { a with asked := a.asked + 1 } relPath fileData) := by
  simp only [archiveFile, if_neg (Nat.not_lt.mpr hsize), hread, Bool.not_true, Bool.false_eq_true,
    if_false]

/-- The name of a file or a directory. -/
abbrev Name := List UInt8

/-- What a directory holds, in the order in which `readdir` lists it: files with their contents, if
they can be read, and directories with what they hold. -/
inductive Tree
  | nil
  | file (name : Name) (contents : Option (List UInt8)) (rest : Tree)
  | dir (name : Name) (children : Tree) (rest : Tree)

/-- The character that separates the names of a path. -/
def slash : UInt8 := 0x2f

def dot : UInt8 := 0x2e

/-- The `"%s/%s"` of two strings. -/
def joined (front back : List UInt8) : List UInt8 := front ++ slash :: back

/-- The entry is passed over: its name starts with a dot, or its path does not fit into the buffer,
and `stat` does not find the path that was cut off. -/
def passedOver (base rel : List UInt8) (name : Name) : Bool :=
  name.head? == some dot || decide (512 ≤ (joined (joined base rel) name).length)

/-- The archive after the call; its return codes are all 0. -/
def archiveDir (memory : Memory) (base : List UInt8) : List UInt8 → Tree → Archive → Archive
  | _, .nil, a => a
  | rel, .file name contents rest, a =>
    archiveDir memory base rel rest
      (if passedOver base rel name then a
        else (archiveFile memory a (joined rel name) contents).2)
  | rel, .dir name children rest, a =>
    archiveDir memory base rel rest
      (if passedOver base rel name then a else archiveDir memory base (joined rel name) children a)

/-! ### Records -/

/-- What is appended for a file. -/
def archiveRecord (path fileData : List UInt8) : List UInt8 :=
  (leBytes 2 path.length).toList ++ path ++ (leBytes 4 fileData.length).toList ++ fileData

section Append

variable {memory : Memory} (hmemory : ∀ i, memory i = true)
include hmemory

/-- Assumes: memory. -/
theorem archiveAppend_data (a : Archive) (bytes : List UInt8) :
    (archiveAppend memory a bytes).2.data = a.data ++ bytes := by
  unfold archiveAppend
  rw [hmemory]
  split_ifs with hgrows hfails
  · exact absurd hfails (by decide)
  · rfl
  · rfl

/-- Assumes: memory, and lengths that fit their fields. -/
theorem appendRecord_data (a : Archive) {path fileData : List UInt8} (hpath : path.length < 2 ^ 16)
    (hsize : fileData.length < 2 ^ 32) :
    (appendRecord memory a path fileData).data = a.data ++ archiveRecord path fileData := by
  simp only [appendRecord, Nat.mod_eq_of_lt hpath, Nat.mod_eq_of_lt hsize, List.take_length,
    archiveAppend_data hmemory, archiveRecord, List.append_assoc]

/-- Assumes: memory, a file that is not too large, and a path of at most 511 bytes. -/
theorem archiveFile_data (a : Archive) {path fileData : List UInt8} (hpath : path.length < 512)
    (hsize : fileData.length ≤ archiveFileMax) :
    (archiveFile memory a path (some fileData)).2.data =
      a.data ++ archiveRecord path fileData := by
  have hdata : fileData.length < 2 ^ 32 := by
    unfold archiveFileMax at hsize
    omega
  rw [archiveFile_eq hsize (hmemory a.asked), appendRecord_data hmemory _ (by omega) hdata]

/-- The archive of a list of entries, from an empty one. Assumes: memory, and lengths that fit their
fields. -/
theorem foldl_appendRecord_data (entries : List (List UInt8 × List UInt8))
    (hentries : ∀ entry ∈ entries, entry.1.length < 2 ^ 16 ∧ entry.2.length < 2 ^ 32) :
    ∀ a : Archive, (entries.foldl (fun a entry ↦ appendRecord memory a entry.1 entry.2) a).data =
      a.data ++ entries.flatMap fun entry ↦ archiveRecord entry.1 entry.2 := by
  induction entries with
  | nil =>
    intro a
    exact (List.append_nil a.data).symm
  | cons entry entries ih =>
    intro a
    obtain ⟨hpath, hsize⟩ := hentries entry List.mem_cons_self
    rw [List.foldl_cons, ih (fun later hlater ↦ hentries later (List.mem_cons_of_mem entry hlater)),
      appendRecord_data hmemory a hpath hsize, List.flatMap_cons, List.append_assoc]

end Append

/-! ### The files of a tree -/

/-- The paths of the files below a directory, as lists of names, with their contents. -/
def Tree.files : List Name → Tree → List (List Name × List UInt8)
  | _, .nil => []
  | path, .file name contents rest => (path ++ [name], contents.getD []) :: rest.files path
  | path, .dir name children rest => children.files (path ++ [name]) ++ rest.files path

/-- A path as the archive has it: every name follows a slash. -/
def pathText (path : List Name) : List UInt8 := path.flatMap fun name ↦ slash :: name

@[simp] theorem pathText_append_name (path : List Name) (name : Name) :
    pathText (path ++ [name]) = joined (pathText path) name := by
  simp [pathText, joined]

/-- A name that is archived: it is not empty and does not start with a dot, and has neither a slash
nor a zero byte in it. -/
structure ProperName (name : Name) : Prop where
  ne_nil : name ≠ []
  no_dot : name.head? ≠ some dot
  no_slash : slash ∉ name
  no_zero : 0 ∉ name

/-- The names that a directory lists. -/
def Tree.names : Tree → List Name
  | .nil => []
  | .file name _ rest => name :: rest.names
  | .dir name _ rest => name :: rest.names

/-- A tree of files that are archived: proper names, no name twice in a directory, and files that
can be read and are not too large. -/
def Tree.Proper : Tree → Prop
  | .nil => True
  | .file name contents rest =>
    (ProperName name ∧ name ∉ rest.names) ∧
      (∃ fileData, contents = some fileData ∧ fileData.length ≤ archiveFileMax) ∧ rest.Proper
  | .dir name children rest =>
    (ProperName name ∧ name ∉ rest.names) ∧ children.Proper ∧ rest.Proper

/-- Joined to a directory with a path of `length` bytes, every path in the tree has fewer than 512
bytes. -/
def Tree.Fits : ℕ → Tree → Prop
  | _, .nil => True
  | length, .file name _ rest => length + 1 + name.length < 512 ∧ rest.Fits length
  | length, .dir name children rest =>
    (length + 1 + name.length < 512 ∧ children.Fits (length + 1 + name.length)) ∧ rest.Fits length

theorem length_joined (front back : List UInt8) :
    (joined front back).length = front.length + 1 + back.length := by
  rw [joined, List.length_append, List.length_cons]
  omega

theorem joined_assoc (front middle back : List UInt8) :
    joined front (joined middle back) = joined (joined front middle) back := by
  simp [joined]

theorem length_joined_pathText (base : List UInt8) (path : List Name) (name : Name) :
    (joined base (pathText (path ++ [name]))).length =
      (joined base (pathText path)).length + 1 + name.length := by
  rw [pathText_append_name, joined_assoc, length_joined]

/-- Assumes: a proper name and a path that fits. -/
theorem passedOver_eq_false {base rel : List UInt8} {name : Name} (hname : ProperName name)
    (hfits : (joined base rel).length + 1 + name.length < 512) :
    passedOver base rel name = false := by
  rw [passedOver, Bool.or_eq_false_iff, beq_eq_false_iff_ne, decide_eq_false_iff_not, length_joined]
  exact ⟨hname.no_dot, by omega⟩

/-- The walk appends the records of the files of the tree. Assumes: memory, and a proper tree whose
paths fit. -/
theorem archiveDir_data {memory : Memory} (hmemory : ∀ i, memory i = true) (base : List UInt8)
    (tree : Tree) :
    ∀ (path : List Name) (a : Archive), tree.Proper →
      tree.Fits (joined base (pathText path)).length →
      (archiveDir memory base (pathText path) tree a).data =
        a.data ++ (tree.files path).flatMap fun entry ↦
          archiveRecord (pathText entry.1) entry.2 := by
  induction tree with
  | nil =>
    intro path a _ _
    simp [archiveDir, Tree.files]
  | file name contents rest ih =>
    rintro path a ⟨⟨hname, -⟩, ⟨fileData, rfl, hsize⟩, hrest⟩ ⟨hfits, hrestFits⟩
    have hlength : (joined (pathText path) name).length < 512 := by
      rw [length_joined] at hfits ⊢
      omega
    rw [archiveDir, passedOver_eq_false hname hfits, if_neg Bool.false_ne_true,
      ih path _ hrest hrestFits, archiveFile_data hmemory a hlength hsize]
    simp [Tree.files]
  | dir name children rest ihChildren ihRest =>
    rintro path a ⟨⟨hname, -⟩, hchildren, hrest⟩ ⟨⟨hfits, hchildrenFits⟩, hrestFits⟩
    rw [archiveDir, passedOver_eq_false hname hfits, if_neg Bool.false_ne_true,
      ihRest path _ hrest hrestFits, ← pathText_append_name,
      ihChildren (path ++ [name]) a hchildren
        (length_joined_pathText base path name ▸ hchildrenFits)]
    simp [Tree.files]

/-! ### The entries of a proper tree -/

theorem Tree.files_below {tree : Tree} {path : List Name} {entry : List Name × List UInt8}
    (hentry : entry ∈ tree.files path) :
    ∃ name ∈ tree.names, ∃ rel, entry.1 = path ++ name :: rel := by
  induction tree generalizing path with
  | nil => exact absurd hentry List.not_mem_nil
  | file name contents rest ih =>
    rcases List.mem_cons.mp hentry with rfl | hrest
    · exact ⟨name, List.mem_cons_self, [], rfl⟩
    · obtain ⟨other, hother, rel, hrel⟩ := ih hrest
      exact ⟨other, List.mem_cons_of_mem name hother, rel, hrel⟩
  | dir name children rest ihChildren ihRest =>
    rcases List.mem_append.mp hentry with hinside | hrest
    · obtain ⟨other, -, rel, hrel⟩ := ihChildren hinside
      exact ⟨name, List.mem_cons_self, other :: rel, by rw [hrel, List.append_assoc]; rfl⟩
    · obtain ⟨other, hother, rel, hrel⟩ := ihRest hrest
      exact ⟨other, List.mem_cons_of_mem name hother, rel, hrel⟩

/-- Assumes: an entry of the tree. -/
theorem Tree.files_ne_nil {tree : Tree} {path : List Name} {entry : List Name × List UInt8}
    (hentry : entry ∈ tree.files path) : entry.1 ≠ [] := by
  obtain ⟨name, -, rel, hrel⟩ := Tree.files_below hentry
  rw [hrel]
  exact List.append_ne_nil_of_right_ne_nil path (List.cons_ne_nil name rel)

/-- No two files of a proper tree have the same path. -/
theorem Tree.Proper.nodup_files {tree : Tree} (hproper : tree.Proper) (path : List Name) :
    ((tree.files path).map Prod.fst).Nodup := by
  induction tree generalizing path with
  | nil => exact List.nodup_nil
  | file name contents rest ih =>
    obtain ⟨⟨-, hfresh⟩, -, hrest⟩ := hproper
    refine List.nodup_cons.mpr ⟨?_, ih hrest path⟩
    intro hmem
    obtain ⟨entry, hentry, hpath⟩ := List.mem_map.mp hmem
    obtain ⟨other, hother, rel, hrel⟩ := Tree.files_below hentry
    have hsame := List.append_cancel_left (hpath.symm.trans hrel)
    exact hfresh ((List.cons.inj hsame).1 ▸ hother)
  | dir name children rest ihChildren ihRest =>
    obtain ⟨⟨-, hfresh⟩, hchildren, hrest⟩ := hproper
    rw [Tree.files, List.map_append, List.nodup_append]
    refine ⟨ihChildren hchildren (path ++ [name]), ihRest hrest path, ?_⟩
    intro inside hinside outside houtside heq
    obtain ⟨entry, hentry, rfl⟩ := List.mem_map.mp hinside
    obtain ⟨later, hlater, rfl⟩ := List.mem_map.mp houtside
    obtain ⟨first, -, rel, hrel⟩ := Tree.files_below hentry
    obtain ⟨other, hother, laterRel, hlaterRel⟩ := Tree.files_below hlater
    rw [hrel, hlaterRel, List.append_assoc] at heq
    exact hfresh ((List.cons.inj (List.append_cancel_left heq)).1 ▸ hother)

/-- Assumes: a proper tree below a path of proper names. -/
theorem Tree.Proper.files {tree : Tree} (hproper : tree.Proper) {path : List Name}
    (hpath : ∀ name ∈ path, ProperName name) {entry : List Name × List UInt8}
    (hentry : entry ∈ tree.files path) :
    (∀ name ∈ entry.1, ProperName name) ∧ entry.2.length ≤ archiveFileMax := by
  have hinside {name : Name} (hname : ProperName name) :
      ∀ other ∈ path ++ [name], ProperName other := by
    intro other hother
    rcases List.mem_append.mp hother with hold | hnew
    · exact hpath other hold
    · exact List.mem_singleton.mp hnew ▸ hname
  induction tree generalizing path with
  | nil => exact absurd hentry List.not_mem_nil
  | file name contents rest ih =>
    obtain ⟨⟨hname, -⟩, ⟨fileData, rfl, hsize⟩, hrest⟩ := hproper
    rcases List.mem_cons.mp hentry with rfl | hlater
    · exact ⟨hinside hname, hsize⟩
    · exact ih hrest hpath hlater hinside
  | dir name children rest ihChildren ihRest =>
    obtain ⟨⟨hname, -⟩, hchildren, hrest⟩ := hproper
    rcases List.mem_append.mp hentry with hchild | hlater
    · refine ihChildren hchildren (hinside hname) hchild ?_
      intro deeper hdeeper other hother
      rcases List.mem_append.mp hother with hold | hnew
      · exact hinside hname other hold
      · exact List.mem_singleton.mp hnew ▸ hdeeper
    · exact ihRest hrest hpath hlater hinside

/-- Assumes: a tree whose paths fit. -/
theorem Tree.Fits.length_lt {tree : Tree} {base : List UInt8} {path : List Name}
    (hfits : tree.Fits (joined base (pathText path)).length) {entry : List Name × List UInt8}
    (hentry : entry ∈ tree.files path) : (joined base (pathText entry.1)).length < 512 := by
  induction tree generalizing path with
  | nil => exact absurd hentry List.not_mem_nil
  | file name contents rest ih =>
    rcases List.mem_cons.mp hentry with rfl | hlater
    · rw [length_joined_pathText]
      exact hfits.1
    · exact ih hfits.2 hlater
  | dir name children rest ihChildren ihRest =>
    rcases List.mem_append.mp hentry with hchild | hlater
    · exact ihChildren (length_joined_pathText base path name ▸ hfits.1.2) hchild
    · exact ihRest hfits.2 hlater

end KoeCore
