import VirtualChannels.Journal
import VirtualChannels.Json.Reader
import VirtualChannels.Library.Basic
import VirtualChannels.Settings

/-
  Loading and saving the library, as scripts that can be run on any file system.
-/

namespace VirtualChannels

/-! ## Scripts

Sequences of calls to a file system, each of which may depend on how those before it went. A
script can be run on any file system that answers the calls. -/

/-- Why a file system refuses a call. A path with a zero in it is none. -/
inductive FileError where
  | notFound | isDirectory | notDirectory | alreadyExists | nameTooLong | busy
  | other (code : Text)
  | zeroInPath (path : Text)
  deriving DecidableEq

namespace FileError

/-- The code that a system has for the error, or what is wrong with the path. -/
def message : FileError → Text
  | notFound => "ENOENT"
  | isDirectory => "EISDIR"
  | notDirectory => "ENOTDIR"
  | alreadyExists => "EEXIST"
  | nameTooLong => "ENAMETOOLONG"
  | busy => "EBUSY"
  | other code => code
  | zeroInPath path => Text.join
      ["The argument 'path' must be a string, Uint8Array, or URL without null bytes. Received ",
        (Text.shown path).cutOff 128]

/-- The name of the kind of error. -/
def name : FileError → Text
  | zeroInPath _ => "TypeError"
  | _ => "Error"

end FileError

inductive FileCall where
  /-- Makes a directory and those above it that are missing. -/
  | makeDirectories (path : Text)
  /-- Makes a file with a content, or replaces the content of one. -/
  | write (path : Text) (content : Utf8.Bytes)
  /-- Moves a file, in the place of another one if there is one. -/
  | rename (source target : Text)
  | remove (path : Text)

/-- The answer to a call: nothing, or an error. -/
abbrev FileAnswer := Option FileError

inductive Script (α : Type) where
  | done (result : α)
  | call (c : FileCall) (next : FileAnswer → Script α)

namespace Script

variable {α σ : Type}

/-- The result of a script on a file system, and the file system after it. -/
def run (answer : σ → FileCall → FileAnswer × σ) : Script α → σ → α × σ
  | done result, s => (result, s)
  | call c next, s => run answer (next (answer s c).1) (answer s c).2

/-- The file systems that a script goes through, the first one included. -/
def trace (answer : σ → FileCall → FileAnswer × σ) : Script α → σ → List σ
  | done _, s => [s]
  | call c next, s => s :: trace answer (next (answer s c).1) (answer s c).2

end Script

/-! ## Loading and saving

Loading always gives a library, an empty one where the file is missing or of no use. Saving writes
a temporary file beside the target and moves it into place, so that the target holds either what
it held before or the whole new document. -/

/-- Where a library is to be found: at a path, or where an environment says. -/
inductive Location where
  | path (p : Text)
  | environment (env : Environment) (platform : Platform) (home : Text)

def Location.resolve : Location → Except (List SettingFault) Text
  | path p => .ok p
  | environment env platform home => libraryFile env platform home

namespace Library

def writer : Journal.Writer := { context := { service := some (.text "ComputedChannelLibrary") } }

def countValue (n : Nat) : Json.Value := .number (Number.nearest false n 1)

def pathData (path : Text) (more : List (Text × Json.Value)) : Json.Value :=
  .object (("path", .text path) :: more)

def entry (level : Journal.Level) (message : Text) (data : Json.Value) : List Journal.Entry :=
  writer.write { level, message, data := some data }

def failureEntry (message : Text) (e : FileError) (path : Text) : List Journal.Entry :=
  writer.write
    { level := .error, message, data := some (pathData path [])
      failure := some { name := e.name, message := e.message } }

/-- The library of a document, and what is to be said about it. -/
def ofDocument (path : Text) (v : Json.Value) : Library × List Journal.Entry :=
  match Document.read v with
  | .error e =>
    (empty, entry .warn "Computed channels library has an unexpected shape, using empty library"
      (pathData path [("reason", .text e.message)]))
  | .ok document =>
    let skipped :=
      if document.dropped = 0 then []
      else entry .warn "Skipped unreadable templates in computed channels library"
        (pathData path [("dropped", countValue document.dropped)])
    ({ version := document.version, templates := document.templates },
      skipped ++ entry .info "Loaded computed channels library"
        (pathData path [("templateCount", countValue document.templates.length)]))

/-- The library of a file, and what is to be said about it. -/
def ofFile (path : Text) : Except FileError Utf8.Bytes → Library × List Journal.Entry
  | .error .notFound =>
    (empty, entry .info "Computed channels library not found, using empty library"
      (pathData path []))
  | .error e => (empty, failureEntry "Failed to read computed channels library" e path)
  | .ok content =>
    let source := Utf8.decode content
    match Json.parse source with
    | .error e =>
      (empty, entry .warn "Computed channels library is not valid JSON, using empty library"
        (pathData path [("reason", .text (e.message source))]))
    | .ok v => ofDocument path v

/-- Loads a library from where it is, with `contentOf` for the files. -/
def load (contentOf : Text → Except FileError Utf8.Bytes) (location : Location) :
    Library × List Journal.Entry :=
  match location.resolve with
  | .error faults =>
    (empty, entry .warn "Could not determine library path, using empty library"
      (.object [("reason", .text (SettingFault.report faults))]))
  | .ok path => ofFile path (contentOf path)

inductive SaveError where
  | location (faults : List SettingFault)
  | directory (e : FileError)
  | file (e : FileError)

def SaveError.message : SaveError → Text
  | location faults =>
    Text.join ["Could not determine config directory: ", SettingFault.report faults]
  | directory e => Text.join ["Failed to create config directory: ", e.message]
  | file e => Text.join ["Failed to write library file: ", e.message]

/-- How a saving ended, with the path it went to, and what is to be said about it. -/
structure SaveReport where
  result : Except SaveError Text
  journal : List Journal.Entry

/-- The bytes of the file of a library. -/
def content (l : Library) : Utf8.Bytes := Utf8.encode l.toJson.pretty

/-- The path of the temporary file, beside the target. -/
def temporaryPath (path freshId : Text) : Text := Text.join [path, ".", freshId, ".tmp"]

def saved (l : Library) (path : Text) : SaveReport :=
  ⟨.ok path, entry .info "Saved computed channels library"
    (pathData path [("templateCount", countValue l.size)])⟩

/-- What is said about a temporary file that could not be removed; one that is not there need
not be. -/
def removalEntry (temporary : Text) : FileAnswer → List Journal.Entry
  | none => []
  | some .notFound => []
  | some e =>
    entry .warn "Failed to remove temporary library file"
      (pathData temporary [("reason", .text e.message)])

/-- Gives up: removes the temporary file and reports the error. -/
def giveUp (path temporary : Text) (e : FileError) : Script SaveReport :=
  .call (.remove temporary) fun answer =>
    .done ⟨.error (.file e), removalEntry temporary answer ++
      failureEntry "Failed to write computed channels library" e path⟩

/-- Writes the temporary file and moves it to the target. -/
def replaceFile (l : Library) (path temporary : Text) : Script SaveReport :=
  .call (.write temporary l.content) fun
    | some e => giveUp path temporary e
    | none =>
      .call (.rename temporary path) fun
        | some e => giveUp path temporary e
        | none => .done (l.saved path)

/-- Saves a library to a path, with a part for the temporary name that is not in use. -/
def saveTo (l : Library) (path freshId : Text) : Script SaveReport :=
  .call (.makeDirectories (Path.Posix.directoryName path)) fun
    | some e => .done ⟨.error (.directory e), []⟩
    | none => l.replaceFile path (temporaryPath path freshId)

/-- Saves a library where it belongs. -/
def save (l : Library) (location : Location) (freshId : Text) : Script SaveReport :=
  match location.resolve with
  | .error faults => .done ⟨.error (.location faults), []⟩
  | .ok path => l.saveTo path freshId

end Library

end VirtualChannels

namespace VirtualChannels.Library

/-! ## Sessions

A library in memory beside the file system that it is loaded from and saved to. Loading puts
another library into memory and leaves the files; saving changes files only. -/

structure Session (σ : Type) where
  library : Library
  files : σ

namespace Session

variable {σ : Type}

/-- Loads a library in the place of the one in memory. -/
def load (contentOf : σ → Text → Except FileError Utf8.Bytes) (s : Session σ)
    (location : Location) : List Journal.Entry × Session σ :=
  let loaded := Library.load (contentOf s.files) location
  (loaded.2, { s with library := loaded.1 })

/-- Saves the library in memory. -/
def save (answer : σ → FileCall → FileAnswer × σ) (s : Session σ) (location : Location)
    (freshId : Text) : SaveReport × Session σ :=
  let saved := (s.library.save location freshId).run answer s.files
  (saved.1, { s with files := saved.2 })

end Session

end VirtualChannels.Library
