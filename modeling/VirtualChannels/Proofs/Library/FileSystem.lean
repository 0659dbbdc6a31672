import VirtualChannels.Disk

/-
  What is promised of a file system. Every path has a place, and a place holds a directory, a
  file or nothing. A call succeeds, or it fails without effect; but a write that fails may leave
  a part of its file, and directories may be made before making them fails. A file that a path
  leads to can be read and removed.
-/

namespace VirtualChannels

/-- A path and everything above it. -/
def Path.Posix.IsAbove (above path : Text) : Prop :=
  path = above ∨ ∃ rest, path = above ++ slash :: rest

theorem Path.Posix.IsAbove.cons {above path : Text} (h : IsAbove above path) (u : CodeUnit) :
    IsAbove (u :: above) (u :: path) := by
  rcases h with rfl | ⟨rest, rfl⟩
  · exact Or.inl rfl
  · exact Or.inr ⟨rest, rfl⟩

/-- How the states of a file system look: what is where, and which paths lead to their place. -/
structure FileView (σ : Type) where
  Place : Type
  place : Text → Place
  entry? : σ → Place → Option DiskEntry
  Leads : σ → Text → Prop

namespace FileView

variable {σ : Type} (v : FileView σ) (s s' : σ)

/-- The content of the file at a place, if a file is there. -/
def file? (q : v.Place) : Option Utf8.Bytes :=
  match v.entry? s q with
  | some (.file content) => some content
  | _ => none

/-- The second state has what the first has, and paths still lead to their places. -/
def Unchanged : Prop :=
  (∀ q, v.entry? s' q = v.entry? s q) ∧ ∀ path, v.Leads s path → v.Leads s' path

/-- In the second state a directory is where nothing was, on the way to a path. -/
def DirectoryMade (path : Text) (q : v.Place) : Prop :=
  v.entry? s q = none ∧ v.entry? s' q = some .directory ∧
    ∃ above, Path.Posix.IsAbove above path ∧ v.place above = q

/-- In the second state a path leads to a file, and all else is as in the first. -/
def FilePut (path : Text) (content : Utf8.Bytes) : Prop :=
  v.Leads s' path ∧ v.entry? s' (v.place path) = some (.file content) ∧
    ∀ q, q ≠ v.place path → v.entry? s' q = v.entry? s q

/-- In the second state nothing is at the place of a path, and all else is as in the first. -/
def FileGone (path : Text) : Prop :=
  v.entry? s' (v.place path) = none ∧ ∀ q, q ≠ v.place path → v.entry? s' q = v.entry? s q

/-- In the second state the file of one path is at another one, and all else is as in the first. -/
def FileMoved (source target : Text) : Prop :=
  v.Leads s' target ∧ v.entry? s' (v.place target) = v.entry? s (v.place source) ∧
    (v.place source ≠ v.place target → v.entry? s' (v.place source) = none) ∧
    ∀ q, q ≠ v.place source → q ≠ v.place target → v.entry? s' q = v.entry? s q

end FileView

structure FileSystem (σ : Type) extends FileView σ where
  answer : σ → FileCall → FileAnswer × σ
  read : σ → Text → Except FileError Utf8.Bytes
  makeDirectories_made : ∀ s path q,
    entry? (answer s (.makeDirectories path)).2 q = entry? s q ∨
      toFileView.DirectoryMade s (answer s (.makeDirectories path)).2 path q
  write_put : ∀ s path content, (answer s (.write path content)).1 = none →
    toFileView.FilePut s (answer s (.write path content)).2 path content
  /-- A part of the file may be left. -/
  write_failed : ∀ s path content e, (answer s (.write path content)).1 = some e →
    toFileView.Unchanged s (answer s (.write path content)).2 ∨
      ∃ part, toFileView.FilePut s (answer s (.write path content)).2 path part
  rename_moved : ∀ s source target content, (answer s (.rename source target)).1 = none →
    entry? s (place source) = some (.file content) →
    toFileView.FileMoved s (answer s (.rename source target)).2 source target
  rename_failed : ∀ s source target e, (answer s (.rename source target)).1 = some e →
    toFileView.Unchanged s (answer s (.rename source target)).2
  /-- A file that a path leads to can be removed. -/
  remove_succeeds : ∀ s path content, Leads s path → entry? s (place path) = some (.file content) →
    (answer s (.remove path)).1 = none
  remove_gone : ∀ s path, (answer s (.remove path)).1 = none →
    toFileView.FileGone s (answer s (.remove path)).2 path
  remove_failed : ∀ s path e, (answer s (.remove path)).1 = some e →
    toFileView.Unchanged s (answer s (.remove path)).2
  read_file : ∀ s path content, Leads s path → entry? s (place path) = some (.file content) →
    read s path = .ok content

end VirtualChannels
