import VirtualChannels.Proofs.Json.Bytes
import VirtualChannels.Proofs.Library.Documents
import VirtualChannels.Proofs.Library.Saving

/-
  Loading after saving. What was saved is loaded again as it was (`load_save`), and what was
  loaded once, from whatever content, does not change any more when it is saved and loaded again
  (`load_normalizes`). Only the sign of a zero does not come back.
-/

namespace VirtualChannels

variable {σ : Type}

namespace Library

/-- A library whose document can be read again without a loss. -/
structure Storable (l : Library) : Prop where
  version : Number.isNatural l.version = true
  templates : ∀ t ∈ l.templates, t.Storable

/-- A library whose zeros have no sign. -/
def withoutZeroSigns (l : Library) : Library :=
  { version := Number.withoutZeroSign l.version
    templates := l.templates.map Template.withoutZeroSigns }

/-- What is said about a library that was loaded with nothing skipped. -/
def loadedEntries (path : Text) (count : Nat) : List Journal.Entry :=
  entry .info "Loaded computed channels library"
    (pathData path [("templateCount", countValue count)])

/-! ## Loading -/

theorem load_eq_ofFile {location : Location} {path : Text} (h : location.resolve = .ok path)
    (contentOf : Text → Except FileError Utf8.Bytes) :
    load contentOf location = ofFile path (contentOf path) := by
  unfold load
  rw [h]

/-- Whatever is loaded can be stored. -/
theorem storable_load (contentOf : Text → Except FileError Utf8.Bytes) (location : Location) :
    (load contentOf location).1.Storable := by
  have hempty : empty.Storable := ⟨by decide +kernel, fun _ h => nomatch h⟩
  unfold load ofFile
  split
  · exact hempty
  · split
    · exact hempty
    · exact hempty
    · dsimp only
      split
      · exact hempty
      · unfold ofDocument
        split
        · exact hempty
        · rename_i document hread
          obtain ⟨hversion, htemplates⟩ := Document.storable_read hread
          exact ⟨hversion, htemplates⟩

/-- The content of a file that a library was saved to is loaded as the library. -/
theorem ofFile_content {l : Library} (h : l.Storable) (path : Text) :
    ofFile path (.ok l.content) = (l.withoutZeroSigns, loadedEntries path l.size) := by
  have hparse : Json.parse (Utf8.decode l.content) = .ok l.toJson.kept :=
    Json.parse_decode_encode_write 2 l.toJson
  have hread : Document.read l.toJson.kept =
      .ok ⟨l.withoutZeroSigns.version, l.withoutZeroSigns.templates, 0⟩ :=
    Document.read_kept_write h.version h.templates
  have hsize : l.withoutZeroSigns.templates.length = l.size := List.length_map _
  unfold ofFile
  dsimp only
  rw [hparse]
  dsimp only
  unfold ofDocument
  rw [hread]
  dsimp only
  rw [hsize]
  rfl

/-! ## Saving -/

section
variable (fs : FileSystem σ) {l : Library} {path temporary : Text} {s : σ}

/-- After a success the content can be read from the path. -/
def Readable (content : Utf8.Bytes) (path : Text) (report : SaveReport) (s : σ) : Prop :=
  ∀ p, report.result = .ok p → p = path ∧ fs.read s path = .ok content

theorem giveUp_readable {content : Utf8.Bytes} (e : FileError) :
    (giveUp path temporary e).Holds fs.answer (fun _ => True) (Readable fs content path) s :=
  .call trivial (.done trivial fun _ h => nomatch h)

theorem replaceFile_readable : (l.replaceFile path temporary).Holds fs.answer (fun _ => True)
    (Readable fs l.content path) s := by
  refine .call trivial ?_
  cases hwrite : (fs.answer s (.write temporary l.content)).1 with
  | some e => exact giveUp_readable fs e
  | none =>
    obtain ⟨-, hfile, -⟩ := fs.write_put s temporary l.content hwrite
    generalize (fs.answer s (.write temporary l.content)).2 = s₁ at hfile
    refine .call trivial ?_
    cases hrename : (fs.answer s₁ (.rename temporary path)).1 with
    | some e => exact giveUp_readable fs e
    | none =>
      obtain ⟨hleads, htarget, -, -⟩ :=
        fs.rename_moved s₁ temporary path l.content hrename hfile
      refine .done trivial fun p hp => ?_
      cases hp
      exact ⟨rfl, fs.read_file _ path l.content hleads (htarget.trans hfile)⟩

theorem saveTo_readable (freshId : Text) : (l.saveTo path freshId).Holds fs.answer
    (fun _ => True) (Readable fs l.content path) s := by
  refine .call trivial ?_
  cases (fs.answer s (.makeDirectories (Path.Posix.directoryName path))).1 with
  | some e => exact .done trivial fun _ h => nomatch h
  | none => exact replaceFile_readable fs

theorem read_of_saved {session : Session σ} {location : Location} {freshId : Text}
    (h : (session.save fs.answer location freshId).1.result = .ok path) :
    location.resolve = .ok path ∧
      fs.read (session.save fs.answer location freshId).2.files path =
        .ok session.library.content := by
  unfold Session.save save at h ⊢
  cases hl : location.resolve with
  | error faults =>
    rw [hl] at h
    cases h
  | ok target =>
    rw [hl] at h
    obtain ⟨rfl, hread⟩ := (saveTo_readable fs freshId).2 path h
    exact ⟨rfl, hread⟩

/-- A library that was saved is loaded without the signs of its zeros, and nothing is skipped. -/
theorem load_of_saved {session : Session σ} {location : Location} {freshId : Text}
    (hl : session.library.Storable)
    (h : (session.save fs.answer location freshId).1.result = .ok path) {source : Location}
    (hsource : source.resolve = .ok path) :
    (session.save fs.answer location freshId).2.load fs.read source =
      (loadedEntries path session.library.size,
        { library := session.library.withoutZeroSigns
          files := (session.save fs.answer location freshId).2.files }) := by
  unfold Session.load
  dsimp only
  rw [load_eq_ofFile hsource, (read_of_saved fs h).2, ofFile_content hl]

end

theorem withoutZeroSigns_of_not_negative {l : Library}
    (h : ∀ t ∈ l.templates, Number.isNegative t.createdAt = false ∧
      Number.isNegative t.modifiedAt = false) :
    l.withoutZeroSigns = { l with version := Number.withoutZeroSign l.version } := by
  have htemplates : l.templates.map Template.withoutZeroSigns = l.templates := by
    refine (List.map_congr_left fun t ht => ?_).trans (List.map_id _)
    unfold Template.withoutZeroSigns
    rw [Number.withoutZeroSign_of_not_negative (h t ht).1,
      Number.withoutZeroSign_of_not_negative (h t ht).2]
    rfl
  unfold withoutZeroSigns
  rw [htemplates]

/-- Loading undoes saving. If the version of a library is a natural number, and every template has
an id and natural numbers without signs for its times, then the library is loaded from the place
that it was saved to as it was, whatever texts it holds, and nothing is skipped. Only a negative
zero for the version turns into zero. -/
theorem load_save (fs : FileSystem σ) (session : Session σ) (location source : Location)
    (freshId : Text) {path : Text} (hl : session.library.Storable)
    (hsigns : ∀ t ∈ session.library.templates, Number.isNegative t.createdAt = false ∧
      Number.isNegative t.modifiedAt = false)
    (hsaved : (session.save fs.answer location freshId).1.result = .ok path)
    (hsource : source.resolve = .ok path) :
    (session.save fs.answer location freshId).2.load fs.read source =
      (loadedEntries path session.library.size,
        { library :=
            { version := Number.withoutZeroSign session.library.version
              templates := session.library.templates }
          files := (session.save fs.answer location freshId).2.files }) ∧
    (Number.isNegative session.library.version = false →
      ((session.save fs.answer location freshId).2.load fs.read source).2.library =
        session.library) := by
  rw [load_of_saved fs hl hsaved hsource, withoutZeroSigns_of_not_negative hsigns]
  refine ⟨rfl, fun hversion => ?_⟩
  rw [Number.withoutZeroSign_of_not_negative hversion]

/-- An empty disk, and a library whose texts hold a quotation mark, a line feed and a surrogate that
stands alone. -/
def marksInTexts : Session Disk where
  library :=
    { version := 2.0
      templates :=
        [{ id := "1", name := [0x22, 0xD800, 0x0A], formula := "\"Air Mass\" / 2", unit := [0xB0]
           description := [], category := [0xDC00], createdAt := 0.0
           modifiedAt := 1700000000000.0 }] }
  files := {}

theorem load_save_marksInTexts :
    marksInTexts.library.Storable ∧
    (∀ t ∈ marksInTexts.library.templates, Number.isNegative t.createdAt = false ∧
      Number.isNegative t.modifiedAt = false) ∧
    (marksInTexts.save Disk.fileSystem.answer (.path "/etc/library.json") "7").1.result =
      .ok "/etc/library.json" ∧
    ((marksInTexts.save Disk.fileSystem.answer (.path "/etc/library.json") "7").2.load
        Disk.fileSystem.read (.path "/etc/library.json")).2.library = marksInTexts.library := by
  have hstorable : marksInTexts.library.Storable :=
    ⟨by decide +kernel,
      List.forall_mem_singleton.2 ⟨by decide, by decide +kernel, by decide +kernel⟩⟩
  have hsigns : ∀ t ∈ marksInTexts.library.templates, Number.isNegative t.createdAt = false ∧
      Number.isNegative t.modifiedAt = false :=
    List.forall_mem_singleton.2 ⟨by decide +kernel, by decide +kernel⟩
  have hsaved : (marksInTexts.save Disk.fileSystem.answer (.path "/etc/library.json")
      "7").1.result = .ok "/etc/library.json" := by rfl
  exact ⟨hstorable, hsigns, hsaved,
    (load_save Disk.fileSystem marksInTexts (.path "/etc/library.json")
      (.path "/etc/library.json") "7" hstorable hsigns hsaved rfl).2 (by decide +kernel)⟩

/-- What was loaded once does not change any more. Whatever content a library was loaded from, if
it is saved then it is loaded again as it was, without the signs of its zeros, and nothing is
skipped. A document that was read from any value, or none, is read from its own document as it
was. -/
theorem load_normalizes (fs : FileSystem σ) (files : σ)
    (contentOf : Text → Except FileError Utf8.Bytes) (location : Location) (freshId : Text) :
    (∀ path, ((Session.mk (load contentOf location).1 files).save fs.answer location
        freshId).1.result = .ok path →
      ((Session.mk (load contentOf location).1 files).save fs.answer location freshId).2.load
          fs.read location =
        (loadedEntries path (load contentOf location).1.size,
          { library := (load contentOf location).1.withoutZeroSigns
            files := ((Session.mk (load contentOf location).1 files).save fs.answer location
              freshId).2.files })) ∧
    ∀ (v : Option Json.Value) (document : Document), Document.readOption v = .ok document →
      Document.read (Document.write document.version document.templates) =
        .ok { document with dropped := 0 } := by
  refine ⟨fun path hsaved => ?_, fun v document hread => ?_⟩
  · exact load_of_saved fs (storable_load contentOf location) hsaved (read_of_saved fs hsaved).1
  · cases v with
    | none => cases hread
    | some v =>
      obtain ⟨hversion, htemplates⟩ := Document.storable_read hread
      exact Document.read_write hversion htemplates

/-- A file with a template that has no formula, a negative version and a negative zero. -/
def damagedFile (_ : Text) : Except FileError Utf8.Bytes :=
  .ok (Utf8.encode (Text.join ["\x7b\"version\":-1,\"templates\":[\x7b\"id\":\"a\"\x7d,",
    "\x7b\"id\":\"b\",\"name\":\"B\",\"formula\":\"1\",\"created_at\":-0\x7d]\x7d"]))

theorem load_normalizes_damagedFile :
    ((Session.mk (load damagedFile (.path "/etc/library.json")).1 ({} : Disk)).save
        Disk.fileSystem.answer (.path "/etc/library.json") "7").1.result =
      .ok "/etc/library.json" ∧
    (((Session.mk (load damagedFile (.path "/etc/library.json")).1 ({} : Disk)).save
        Disk.fileSystem.answer (.path "/etc/library.json") "7").2.load Disk.fileSystem.read
        (.path "/etc/library.json")).2.library =
      (load damagedFile (.path "/etc/library.json")).1.withoutZeroSigns := by
  have hsaved : ((Session.mk (load damagedFile (.path "/etc/library.json")).1 ({} : Disk)).save
      Disk.fileSystem.answer (.path "/etc/library.json") "7").1.result =
        .ok "/etc/library.json" := by rfl
  refine ⟨hsaved, ?_⟩
  rw [(load_normalizes Disk.fileSystem {} damagedFile (.path "/etc/library.json") "7").1 _ hsaved]

end Library

end VirtualChannels
