import VirtualChannels.Library.Storage
import VirtualChannels.Proofs.Library.Disks

/-
  Saving is atomic on every file system. Between any two of its calls the target is what it was
  or the new document (`save_atomic`). A saving that fails leaves no more behind than directories
  on the way to the target.
-/

namespace VirtualChannels

variable {σ : Type}

namespace FileView

/-- Nothing but directories on the way to a path has changed at a place. -/
def Settled (v : FileView σ) (way : Text) (s s' : σ) (q : v.Place) : Prop :=
  v.entry? s' q = v.entry? s q ∨ v.DirectoryMade s s' way q

/-- Nothing is at the place of a path, and it is not the place of another one. -/
def IsFree (v : FileView σ) (s : σ) (temporary target : Text) : Prop :=
  v.entry? s (v.place temporary) = none ∧ v.place temporary ≠ v.place target

section
variable {v : FileView σ} {way : Text} {s s₁ s₂ : σ} {q : v.Place}

theorem Settled.of_eq (h : v.Settled way s s₁ q) (he : v.entry? s₂ q = v.entry? s₁ q) :
    v.Settled way s s₂ q := by
  unfold Settled DirectoryMade
  rw [he]
  exact h

/-- A directory is no file, and neither is nothing. -/
theorem Settled.file?_eq (h : v.Settled way s s₁ q) : v.file? s₁ q = v.file? s q := by
  unfold file?
  rcases h with h | ⟨hs, hd, -⟩
  · rw [h]
  · rw [hs, hd]

theorem file?_eq_some {content : Utf8.Bytes} (h : v.entry? s q = some (.file content)) :
    v.file? s q = some content := by
  unfold file?
  rw [h]

end

end FileView

/-! ## Scripts -/

namespace Script

/-- Something holds of all states that a script goes through, and something of how it ends. -/
def Holds {α : Type} (answer : σ → FileCall → FileAnswer × σ) (between : σ → Prop)
    (atEnd : α → σ → Prop) (script : Script α) (s : σ) : Prop :=
  (∀ t ∈ script.trace answer s, between t) ∧ atEnd (script.run answer s).1 (script.run answer s).2

variable {α : Type} {answer : σ → FileCall → FileAnswer × σ} {between : σ → Prop}
  {atEnd : α → σ → Prop} {s : σ}

theorem Holds.done {result : α} (hs : between s) (he : atEnd result s) :
    (done result).Holds answer between atEnd s := by
  refine ⟨fun t ht => ?_, he⟩
  rw [List.mem_singleton.1 ht]
  exact hs

/-- A call is followed by the script that its answer leads to. -/
theorem Holds.call {c : FileCall} {next : FileAnswer → Script α} (hs : between s)
    (h : (next (answer s c).1).Holds answer between atEnd (answer s c).2) :
    (call c next).Holds answer between atEnd s := by
  obtain ⟨hbetween, hend⟩ := h
  refine ⟨fun t ht => ?_, hend⟩
  rcases List.mem_cons.1 ht with rfl | ht
  · exact hs
  · exact hbetween t ht

end Script

/-! ## The calls of a saving -/

namespace Library

/-- What the calls of a saving have done before the last one: they made directories, and maybe
the temporary file, to which its path leads. -/
structure Pending (v : FileView σ) (way temporary : Text) (s₀ s : σ) : Prop where
  others : ∀ q, q ≠ v.place temporary → v.Settled way s₀ s q
  temporary : v.Settled way s₀ s (v.place temporary) ∨
    v.Leads s temporary ∧ ∃ part, v.entry? s (v.place temporary) = some (.file part)

/-- The target is what it was, or the new document. -/
def OldOrNew (v : FileView σ) (path : Text) (content : Utf8.Bytes) (s₀ s : σ) : Prop :=
  v.file? s (v.place path) = v.file? s₀ (v.place path) ∨ v.file? s (v.place path) = some content

/-- After a failure nothing has changed but directories on the way, and after a success the
target has the new document besides. -/
def Finished (v : FileView σ) (path : Text) (content : Utf8.Bytes) (s₀ : σ) (report : SaveReport)
    (s : σ) : Prop :=
  match report.result with
  | .error _ => ∀ q, v.Settled (Path.Posix.directoryName path) s₀ s q
  | .ok p => p = path ∧ v.file? s (v.place path) = some content ∧
      ∀ q, q ≠ v.place path → v.Settled (Path.Posix.directoryName path) s₀ s q

section
variable (fs : FileSystem σ) {l : Library} {path temporary : Text} {s₀ s : σ}
  (hfree : fs.IsFree s₀ temporary path)

include hfree

theorem oldOrNew_of_settled {way : Text} {content : Utf8.Bytes}
    (h : ∀ q, q ≠ fs.place temporary → fs.Settled way s₀ s q) :
    OldOrNew fs.toFileView path content s₀ s :=
  Or.inl (h _ hfree.2.symm).file?_eq

theorem giveUp_holds {content : Utf8.Bytes} (e : FileError)
    (h : Pending fs.toFileView (Path.Posix.directoryName path) temporary s₀ s) :
    (giveUp path temporary e).Holds fs.answer (OldOrNew fs.toFileView path content s₀)
      (Finished fs.toFileView path content s₀) s := by
  refine .call (oldOrNew_of_settled fs hfree h.others) ?_
  have hsettled : ∀ q, fs.Settled (Path.Posix.directoryName path) s₀
      (fs.answer s (.remove temporary)).2 q := by
    cases hreply : (fs.answer s (.remove temporary)).1 with
    | none =>
      obtain ⟨hgone, hothers⟩ := fs.remove_gone s temporary hreply
      intro q
      by_cases hq : q = fs.place temporary
      · rw [hq]
        exact Or.inl (hgone.trans hfree.1.symm)
      · exact (h.others q hq).of_eq (hothers q hq)
    | some e =>
      obtain ⟨hsame, -⟩ := fs.remove_failed s temporary e hreply
      intro q
      by_cases hq : q = fs.place temporary
      · rcases h.temporary with ht | ⟨hleads, part, ht⟩
        · rw [hq]
          exact ht.of_eq (hsame _)
        · -- A file that is there is removed, so the call cannot have failed.
          rw [fs.remove_succeeds s temporary part hleads ht] at hreply
          cases hreply
      · exact (h.others q hq).of_eq (hsame q)
  exact .done (oldOrNew_of_settled fs hfree fun q _ => hsettled q) hsettled

/-- Moving the temporary file to the target, which takes the place of what is there. -/
theorem rename_holds (h : ∀ q, fs.Settled (Path.Posix.directoryName path) s₀ s q) {s₁ : σ}
    (hput : fs.FilePut s s₁ temporary l.content) :
    (Script.call (.rename temporary path) fun
      | some e => giveUp path temporary e
      | none => .done (l.saved path)).Holds fs.answer (OldOrNew fs.toFileView path l.content s₀)
        (Finished fs.toFileView path l.content s₀) s₁ := by
  obtain ⟨hleads, hfile, hothers⟩ := hput
  have hsettled : ∀ q, q ≠ fs.place temporary →
      fs.Settled (Path.Posix.directoryName path) s₀ s₁ q :=
    fun q hq => (h q).of_eq (hothers q hq)
  refine .call (oldOrNew_of_settled fs hfree hsettled) ?_
  cases hreply : (fs.answer s₁ (.rename temporary path)).1 with
  | some e =>
    obtain ⟨hsame, hstill⟩ := fs.rename_failed s₁ temporary path e hreply
    refine giveUp_holds fs hfree e ⟨fun q hq => (hsettled q hq).of_eq (hsame q), Or.inr ?_⟩
    exact ⟨hstill _ hleads, l.content, (hsame _).trans hfile⟩
  | none =>
    obtain ⟨-, htarget, hgone, hrest⟩ := fs.rename_moved s₁ temporary path l.content hreply hfile
    have hnew := FileView.file?_eq_some (htarget.trans hfile)
    refine .done (Or.inr hnew) ⟨rfl, hnew, fun q hq => ?_⟩
    by_cases hq' : q = fs.place temporary
    · rw [hq']
      exact Or.inl ((hgone hfree.2).trans hfree.1.symm)
    · exact (hsettled q hq').of_eq (hrest q hq' hq)

theorem replaceFile_holds (h : ∀ q, fs.Settled (Path.Posix.directoryName path) s₀ s q) :
    (l.replaceFile path temporary).Holds fs.answer (OldOrNew fs.toFileView path l.content s₀)
      (Finished fs.toFileView path l.content s₀) s := by
  refine .call (oldOrNew_of_settled fs hfree fun q _ => h q) ?_
  cases hreply : (fs.answer s (.write temporary l.content)).1 with
  | none => exact rename_holds fs hfree h (fs.write_put s temporary l.content hreply)
  | some e =>
    refine giveUp_holds fs hfree e ?_
    rcases fs.write_failed s temporary l.content e hreply with
      ⟨hsame, -⟩ | ⟨part, hleads, hfile, hothers⟩
    · exact ⟨fun q _ => (h q).of_eq (hsame q), Or.inl ((h _).of_eq (hsame _))⟩
    · exact ⟨fun q hq => (h q).of_eq (hothers q hq), Or.inr ⟨hleads, part, hfile⟩⟩

end

theorem saveTo_holds (fs : FileSystem σ) (l : Library) (path freshId : Text) (s : σ)
    (hfree : fs.IsFree s (temporaryPath path freshId) path) :
    (l.saveTo path freshId).Holds fs.answer (OldOrNew fs.toFileView path l.content s)
      (Finished fs.toFileView path l.content s) s := by
  have hmade := fs.makeDirectories_made s (Path.Posix.directoryName path)
  refine .call (Or.inl rfl) ?_
  cases (fs.answer s (.makeDirectories (Path.Posix.directoryName path))).1 with
  | some e => exact .done (oldOrNew_of_settled fs hfree fun q _ => hmade q) hmade
  | none => exact replaceFile_holds fs hfree hmade

/-- Whatever fails, a saving leaves at the target what it was or the whole new document, at every
point between two calls. If it fails at the end, nothing has changed but directories on the way
to the target; if not, the target has the document of the library in memory, and nothing else has
changed. The library in memory stays as it is. -/
theorem save_atomic (fs : FileSystem σ) (session : Session σ) (location : Location)
    (freshId : Text)
    (hfree : ∀ path, location.resolve = .ok path →
      fs.IsFree session.files (temporaryPath path freshId) path) :
    (∀ path, location.resolve = .ok path →
      ∀ files ∈ (session.library.save location freshId).trace fs.answer session.files,
        fs.file? files (fs.place path) = fs.file? session.files (fs.place path) ∨
        fs.file? files (fs.place path) =
          some (Utf8.encode (Document.write session.library.version
            session.library.templates).pretty)) ∧
    (∀ e, (session.save fs.answer location freshId).1.result = .error e →
      ∀ q, fs.entry? (session.save fs.answer location freshId).2.files q =
          fs.entry? session.files q ∨
        ∃ path, location.resolve = .ok path ∧
          fs.DirectoryMade session.files (session.save fs.answer location freshId).2.files
            (Path.Posix.directoryName path) q) ∧
    (∀ path, (session.save fs.answer location freshId).1.result = .ok path →
      location.resolve = .ok path ∧
      fs.file? (session.save fs.answer location freshId).2.files (fs.place path) =
        some (Utf8.encode (Document.write session.library.version
          session.library.templates).pretty) ∧
      ∀ q, q ≠ fs.place path →
        fs.entry? (session.save fs.answer location freshId).2.files q =
          fs.entry? session.files q ∨
        fs.DirectoryMade session.files (session.save fs.answer location freshId).2.files
          (Path.Posix.directoryName path) q) ∧
    (session.save fs.answer location freshId).2.library = session.library := by
  unfold Session.save save
  cases hl : location.resolve with
  | error faults =>
    refine ⟨fun path h => ?_, fun e _ q => Or.inl rfl, fun path h => ?_, rfl⟩
    · cases h
    · cases h
  | ok path =>
    obtain ⟨hbetween, hend⟩ :=
      saveTo_holds fs session.library path freshId session.files (hfree path hl)
    dsimp only
    refine ⟨?_, ?_, ?_, rfl⟩
    · intro p hp
      cases hp
      exact hbetween
    · intro e he q
      unfold Finished at hend
      rw [he] at hend
      exact (hend q).imp_right fun h => ⟨path, rfl, h⟩
    · intro p hp
      unfold Finished at hend
      rw [hp] at hend
      obtain ⟨rfl, hnew, hothers⟩ := hend
      exact ⟨rfl, hnew, hothers⟩

/-- A disk with a library file on which the next write stops after three bytes. -/
def shortOfSpace : Session (Disk × List (Option Fault)) where
  library :=
    { templates :=
        [{ id := "1", name := "Boost", formula := "MAP - Baro", unit := "kPa", description := []
           category := "Air", createdAt := 0.0, modifiedAt := 0.0 }] }
  files :=
    (⟨[(["etc"], .directory), (["etc", "library.json"], .file [0x7B, 0x7D])]⟩,
      [none, some { error := .other "ENOSPC", left := some 3 }])

theorem save_atomic_shortOfSpace :
    (∀ path, (Location.path "/etc/library.json").resolve = .ok path →
      Disk.fileSystem.withFaults.IsFree shortOfSpace.files (temporaryPath path "7") path) ∧
    (shortOfSpace.save Disk.fileSystem.withFaults.answer (.path "/etc/library.json")
      "7").1.result = .error (.file (.other "ENOSPC")) ∧
    ∀ q, (shortOfSpace.save Disk.fileSystem.withFaults.answer (.path "/etc/library.json")
        "7").2.files.1.lookup q = shortOfSpace.files.1.lookup q ∨
      ∃ path, (Location.path "/etc/library.json").resolve = .ok path ∧
        Disk.fileSystem.withFaults.DirectoryMade shortOfSpace.files
          (shortOfSpace.save Disk.fileSystem.withFaults.answer (.path "/etc/library.json")
            "7").2.files (Path.Posix.directoryName path) q := by
  have hfree : ∀ path, (Location.path "/etc/library.json").resolve = .ok path →
      Disk.fileSystem.withFaults.IsFree shortOfSpace.files (temporaryPath path "7") path := by
    intro path h
    cases h
    exact ⟨by rfl, Disk.placeOf_temporaryPath_ne (by decide) _⟩
  have hfails : (shortOfSpace.save Disk.fileSystem.withFaults.answer (.path "/etc/library.json")
      "7").1.result = .error (.file (.other "ENOSPC")) := by rfl
  exact ⟨hfree, hfails,
    (save_atomic Disk.fileSystem.withFaults shortOfSpace _ "7" hfree).2.1 _ hfails⟩

end Library

end VirtualChannels
