import Mathlib.Data.List.Induction
import Mathlib.Data.List.Nodup
import Mathlib.Logic.Function.Basic
import Mathlib.Tactic.Common

/-!
# Unpacking files into a directory

A file system as the directories that exist and the contents of files, both by path, where a path is
a list of names. `mkdir` makes one directory and needs its parent, and `write` needs the directory
of the file; both do nothing otherwise. Directories and files do not get into each other's way: a
directory is made also where there is a file of its name, and the other way round.

`unpack` is the loop of an unpacker that makes at most one directory for each file. It loses a file
whose directory is missing together with its parent. `unpack_complete_iff` says exactly when
nothing is lost: for every file, its directory is near the top, or a file unpacked before it is in
the same directory or in the one above (`Placed`).
-/

set_option autoImplicit false
set_option relaxedAutoImplicit false

namespace Directory

variable {α δ : Type*} [DecidableEq α]

/-- The directories that exist, and the contents of the files. -/
structure FileSystem (α δ : Type*) where
  dirs : List (List α)
  files : List α → Option δ

namespace FileSystem

/-- The directory is made if its parent exists, also where there is a file of its name. -/
def mkdir (fs : FileSystem α δ) (dir : List α) : FileSystem α δ :=
  if dir.dropLast ∈ fs.dirs then { fs with dirs := dir :: fs.dirs } else fs

/-- The file is written if its directory exists. -/
def write (fs : FileSystem α δ) (path : List α) (data : δ) : FileSystem α δ :=
  if path.dropLast ∈ fs.dirs then { fs with files := Function.update fs.files path (some data) }
  else fs

/-- One round of unpacking: the directory of the file is made, and then the file is written. -/
def place (fs : FileSystem α δ) (path : List α) (data : δ) : FileSystem α δ :=
  (fs.mkdir path.dropLast).write path data

/-- The entries, whose paths are relative to `top`, are unpacked in order. -/
def unpack (top : List α) (entries : List (List α × δ)) (fs : FileSystem α δ) : FileSystem α δ :=
  entries.foldl (fun fs entry ↦ fs.place (top ++ entry.1) entry.2) fs

/-- The directory exists and there is nothing in it. -/
structure EmptyAt (fs : FileSystem α δ) (top : List α) : Prop where
  top_mem : top ∈ fs.dirs
  dirs_below : ∀ rel, top ++ rel ∈ fs.dirs → rel = []
  files_below : ∀ rel, fs.files (top ++ rel) = none

end FileSystem

/-- The entry is at most one directory below the top, or one of the entries before it is in the same
directory or in the one above. -/
def Placed (front : List (List α × δ)) (entry : List α × δ) : Prop :=
  entry.1.dropLast.length ≤ 1 ∨
    ∃ other ∈ front, other.1.dropLast = entry.1.dropLast ∨
      other.1.dropLast = entry.1.dropLast.dropLast

/-! ### One round -/

section Round

variable {fs : FileSystem α δ} {path : List α} {data : δ}

theorem FileSystem.mem_dirs_mkdir {dir other : List α} :
    other ∈ (fs.mkdir dir).dirs ↔ other ∈ fs.dirs ∨ (other = dir ∧ dir.dropLast ∈ fs.dirs) := by
  unfold FileSystem.mkdir
  split_ifs with hparent
  · simp only [List.mem_cons, hparent, and_true]
    exact or_comm
  · simp [hparent]

theorem FileSystem.files_mkdir (fs : FileSystem α δ) (dir : List α) :
    (fs.mkdir dir).files = fs.files := by
  unfold FileSystem.mkdir
  split_ifs
  · rfl
  · rfl

/-- A round makes the directory of its file, if the one above exists, and no other. -/
theorem FileSystem.mem_dirs_place {dir : List α} :
    dir ∈ (fs.place path data).dirs ↔
      dir ∈ fs.dirs ∨ (dir = path.dropLast ∧ path.dropLast.dropLast ∈ fs.dirs) := by
  have hdirs : (fs.place path data).dirs = (fs.mkdir path.dropLast).dirs := by
    unfold FileSystem.place FileSystem.write
    split_ifs
    · rfl
    · rfl
  rw [hdirs, mem_dirs_mkdir]

/-- A round writes its file exactly when the directory of the file or the one above exists. -/
theorem FileSystem.files_place (fs : FileSystem α δ) (path : List α) (data : δ) (other : List α) :
    (fs.place path data).files other =
      if (path.dropLast ∈ fs.dirs ∨ path.dropLast.dropLast ∈ fs.dirs) ∧ other = path then some data
      else fs.files other := by
  have hdir : path.dropLast ∈ (fs.mkdir path.dropLast).dirs ↔
      path.dropLast ∈ fs.dirs ∨ path.dropLast.dropLast ∈ fs.dirs := by
    rw [mem_dirs_mkdir]
    simp
  by_cases hexists : path.dropLast ∈ (fs.mkdir path.dropLast).dirs
  · rw [FileSystem.place, FileSystem.write, if_pos hexists]
    by_cases heq : other = path
    · rw [if_pos ⟨hdir.mp hexists, heq⟩, heq]
      exact Function.update_self ..
    · rw [if_neg fun hboth ↦ heq hboth.2, files_mkdir]
      exact Function.update_of_ne heq ..
  · rw [FileSystem.place, FileSystem.write, if_neg hexists,
      if_neg fun hboth ↦ hexists (hdir.mpr hboth.1), files_mkdir]

end Round

/-! ### The whole loop -/

section Unpack

variable {top : List α} {fs : FileSystem α δ}

theorem FileSystem.unpack_append (top : List α) (front back : List (List α × δ))
    (fs : FileSystem α δ) : fs.unpack top (front ++ back) = (fs.unpack top front).unpack top back :=
  List.foldl_append

omit [DecidableEq α] in
/-- Assumes: a path below the top. -/
theorem dropLast_append_path {rel : List α} (hrel : rel ≠ []) :
    (top ++ rel).dropLast = top ++ rel.dropLast :=
  List.dropLast_append_of_ne_nil hrel

omit [DecidableEq α] in
/-- That the directory of a file or the one above exists can be said of paths below the top.
Assumes: a path below the top, which exists. -/
theorem placeable_iff {rel : List α} (hrel : rel ≠ []) (htop : top ∈ fs.dirs) :
    ((top ++ rel).dropLast ∈ fs.dirs ∨ (top ++ rel).dropLast.dropLast ∈ fs.dirs) ↔
      top ++ rel.dropLast ∈ fs.dirs ∨ top ++ rel.dropLast.dropLast ∈ fs.dirs := by
  rw [dropLast_append_path hrel]
  by_cases hdir : rel.dropLast = []
  · simp [hdir, htop]
  · rw [dropLast_append_path hdir]

theorem FileSystem.subset_dirs_unpack (top : List α) (entries : List (List α × δ))
    (fs : FileSystem α δ) {dir : List α} (hdir : dir ∈ fs.dirs) :
    dir ∈ (fs.unpack top entries).dirs := by
  induction entries generalizing fs with
  | nil => exact hdir
  | cons entry entries ih => exact ih _ (mem_dirs_place.mpr (Or.inl hdir))

/-- Only the directories of entries are made. Assumes: an empty directory at the top, and paths
below it. -/
theorem FileSystem.EmptyAt.dirs_unpack (hempty : fs.EmptyAt top) {entries : List (List α × δ)}
    (hbelow : ∀ entry ∈ entries, entry.1 ≠ []) {rel : List α}
    (hrel : top ++ rel ∈ (fs.unpack top entries).dirs) :
    rel = [] ∨ ∃ entry ∈ entries, entry.1.dropLast = rel := by
  induction entries using List.reverseRecOn with
  | nil => exact Or.inl (hempty.dirs_below rel hrel)
  | append_singleton front entry ih =>
    rw [FileSystem.unpack_append] at hrel
    rcases FileSystem.mem_dirs_place.mp hrel with hold | ⟨hnew, -⟩
    · rcases ih (fun other hother ↦ hbelow other (List.mem_append_left _ hother)) hold with
        hnil | ⟨other, hother, hdir⟩
      · exact Or.inl hnil
      · exact Or.inr ⟨other, List.mem_append_left _ hother, hdir⟩
    · rw [dropLast_append_path (hbelow entry (by simp))] at hnew
      exact Or.inr ⟨entry, by simp, (List.append_cancel_left hnew).symm⟩

/-- Unpacking entries leaves other files alone. Assumes: a path that is not among the entries. -/
theorem FileSystem.files_unpack_of_notMem {entries : List (List α × δ)} {rel : List α}
    (hrel : rel ∉ entries.map Prod.fst) (fs : FileSystem α δ) :
    (fs.unpack top entries).files (top ++ rel) = fs.files (top ++ rel) := by
  induction entries generalizing fs with
  | nil => rfl
  | cons entry entries ih =>
    rw [List.map_cons, List.mem_cons, not_or] at hrel
    have hne : top ++ rel ≠ top ++ entry.1 := fun heq ↦ hrel.1 (List.append_cancel_left heq)
    exact (ih hrel.2 _).trans ((files_place fs _ _ _).trans (if_neg fun hboth ↦ hne hboth.2))

/-- Assumes: an empty directory at the top, paths below it, and an entry that is placed by those in
front of it, all of which have their directories. -/
theorem FileSystem.EmptyAt.placeable (hempty : fs.EmptyAt top) {front : List (List α × δ)}
    (hdirs : ∀ other ∈ front, top ++ other.1.dropLast ∈ (fs.unpack top front).dirs)
    {entry : List α × δ} (hplaced : Placed front entry) :
    top ++ entry.1.dropLast ∈ (fs.unpack top front).dirs ∨
      top ++ entry.1.dropLast.dropLast ∈ (fs.unpack top front).dirs := by
  rcases hplaced with hnear | ⟨other, hother, hsame | habove⟩
  · have hnil : entry.1.dropLast.dropLast = [] := by
      rw [← List.length_eq_zero_iff, List.length_dropLast]
      omega
    rw [hnil, List.append_nil]
    exact Or.inr (FileSystem.subset_dirs_unpack top front fs hempty.top_mem)
  · exact Or.inl (hsame ▸ hdirs other hother)
  · exact Or.inr (habove ▸ hdirs other hother)

/-- Everything is unpacked, and every directory is there. Assumes: an empty directory at the top,
distinct paths below it, and entries that are all placed by those in front of them. -/
theorem FileSystem.EmptyAt.unpack_complete (hempty : fs.EmptyAt top) {entries : List (List α × δ)}
    (hbelow : ∀ entry ∈ entries, entry.1 ≠ []) (hnodup : (entries.map Prod.fst).Nodup)
    (hplaced : ∀ front entry back, entries = front ++ entry :: back → Placed front entry) :
    ∀ entry ∈ entries, top ++ entry.1.dropLast ∈ (fs.unpack top entries).dirs ∧
      (fs.unpack top entries).files (top ++ entry.1) = some entry.2 := by
  induction entries using List.reverseRecOn with
  | nil => exact fun entry hentry ↦ absurd hentry List.not_mem_nil
  | append_singleton front last ih =>
    have hfrontBelow : ∀ entry ∈ front, entry.1 ≠ [] := fun entry hentry ↦
      hbelow entry (List.mem_append_left _ hentry)
    have hfront := ih hfrontBelow
      ((List.sublist_append_left front [last]).map Prod.fst |>.nodup hnodup)
      (fun before entry after hsplit ↦ hplaced before entry (after ++ [last]) (by simp [hsplit]))
    have hlastBelow : last.1 ≠ [] := hbelow last (by simp)
    have htop := FileSystem.subset_dirs_unpack top front fs hempty.top_mem
    have hcan := hempty.placeable (fun other hother ↦ (hfront other hother).1)
      (hplaced front last [] rfl)
    have hwrites := (placeable_iff hlastBelow htop).mpr hcan
    intro entry hentry
    rw [FileSystem.unpack_append]
    rcases List.mem_append.mp hentry with hold | hnew
    · obtain ⟨hdir, hfile⟩ := hfront entry hold
      have hne : entry.1 ≠ last.1 := by
        intro heq
        rw [List.map_append, List.nodup_append] at hnodup
        exact hnodup.2.2 entry.1 (List.mem_map_of_mem hold) last.1 (by simp) heq
      refine ⟨FileSystem.mem_dirs_place.mpr (Or.inl hdir), ?_⟩
      refine (FileSystem.files_unpack_of_notMem ?_ _).trans hfile
      simpa using hne
    · obtain rfl := List.mem_singleton.mp hnew
      constructor
      · refine FileSystem.mem_dirs_place.mpr ?_
        rcases hwrites with hexists | habove
        · exact Or.inl (dropLast_append_path hlastBelow ▸ hexists)
        · exact Or.inr ⟨(dropLast_append_path hlastBelow).symm, habove⟩
      · exact (FileSystem.files_place _ _ _ _).trans (if_pos ⟨hwrites, rfl⟩)

/-- Nothing is lost exactly when every entry is placed by those in front of it. Assumes: an empty
directory at the top, and distinct paths below it. -/
theorem FileSystem.EmptyAt.unpack_complete_iff (hempty : fs.EmptyAt top)
    {entries : List (List α × δ)} (hbelow : ∀ entry ∈ entries, entry.1 ≠ [])
    (hnodup : (entries.map Prod.fst).Nodup) :
    (∀ entry ∈ entries, (fs.unpack top entries).files (top ++ entry.1) = some entry.2) ↔
      ∀ front entry back, entries = front ++ entry :: back → Placed front entry := by
  constructor
  · intro hcomplete front entry back hsplit
    subst hsplit
    have hfront : ∀ other ∈ front, other.1 ≠ [] := fun other hother ↦
      hbelow other (List.mem_append_left _ hother)
    have hentryBelow : entry.1 ≠ [] := hbelow entry (by simp)
    rw [List.map_append, List.map_cons, List.nodup_append, List.nodup_cons] at hnodup
    obtain ⟨-, ⟨hback, -⟩, hapart⟩ := hnodup
    have hbefore : entry.1 ∉ front.map Prod.fst := fun hmem ↦
      hapart entry.1 hmem entry.1 List.mem_cons_self rfl
    -- Nobody else writes the file, so it was written in the round of the entry.
    have hfinal := hcomplete entry (by simp)
    rw [FileSystem.unpack_append] at hfinal
    have hround := (FileSystem.files_unpack_of_notMem hback _).symm.trans hfinal
    rw [FileSystem.files_place] at hround
    split_ifs at hround with hwrites
    · have htop := FileSystem.subset_dirs_unpack top front fs hempty.top_mem
      rcases (placeable_iff hentryBelow htop).mp hwrites.1 with hexists | habove
      · rcases hempty.dirs_unpack hfront hexists with hnil | ⟨other, hother, hdir⟩
        · exact Or.inl (by simp [hnil])
        · exact Or.inr ⟨other, hother, Or.inl hdir⟩
      · rcases hempty.dirs_unpack hfront habove with hnil | ⟨other, hother, hdir⟩
        · rw [← List.length_eq_zero_iff, List.length_dropLast] at hnil
          exact Or.inl (by omega)
        · exact Or.inr ⟨other, hother, Or.inr hdir⟩
    · rw [FileSystem.files_unpack_of_notMem hbefore, hempty.files_below] at hround
      exact absurd hround (by simp)
  · intro hplaced entry hentry
    exact (hempty.unpack_complete hbelow hnodup hplaced entry hentry).2

end Unpack

end Directory
