import VirtualChannels.Library.Storage
import VirtualChannels.Path

/-
  A file system in memory: directories and files under their segments from the root, which is
  also where paths without a slash at the start begin. Paths are walked segment by segment;
  every segment but the last has to lead to a directory, and an empty segment or a single dot
  stays where it is.
-/

namespace VirtualChannels

inductive DiskEntry where
  | directory
  | file (content : Utf8.Bytes)

/-- The entries below the root, which is always there. -/
structure Disk where
  entries : List (List Text × DiskEntry) := []

namespace Disk

/-- The most bytes that the name of an entry may have. -/
def longestName : Nat := 255

def isTooLong (name : Text) : Bool := longestName < (Utf8.encode name).length

/-- The most bytes that a path may have. -/
def longestPath : Nat := 4095

/-- What is wrong with a path as such. -/
def pathError? (path : Text) : Option FileError :=
  if path.contains 0 then some (.zeroInPath path)
  else if path = [] then some .notFound
  else if longestPath < (Utf8.encode path).length then some .nameTooLong
  else none

def lookup (d : Disk) (place : List Text) : Option DiskEntry :=
  if place = [] then some .directory else d.entries.lookup place

def erase (d : Disk) (place : List Text) : Disk :=
  ⟨d.entries.filter fun e => e.1 ≠ place⟩

def put (d : Disk) (place : List Text) (e : DiskEntry) : Disk :=
  ⟨(d.erase place).entries ++ [(place, e)]⟩

def staysPut (segment : Text) : Bool := segment == [] || segment == Path.dot

/-- One step down, up or nowhere from a directory. -/
def enter (d : Disk) (place : List Text) (segment : Text) : Except FileError (List Text) :=
  if staysPut segment then .ok place
  else if segment = Path.dotDot then .ok place.dropLast
  else if isTooLong segment then .error .nameTooLong
  else
    match d.lookup (place ++ [segment]) with
    | none => .error .notFound
    | some (.file _) => .error .notDirectory
    | some .directory => .ok (place ++ [segment])

def walk (d : Disk) (place : List Text) : List Text → Except FileError (List Text)
  | [] => .ok place
  | segment :: rest =>
    match d.enter place segment with
    | .error e => .error e
    | .ok next => d.walk next rest

def segmentsOf (path : Text) : List Text := path.splitOn (· == Path.slash)

/-- The directory that the last segment of a path is looked up in, and that segment. The empty
path leads nowhere. -/
def locate (d : Disk) (path : Text) : Except FileError (List Text × Text) :=
  match pathError? path with
  | some e => .error e
  | none =>
    let segments := segmentsOf path
    match d.walk [] segments.dropLast with
    | .error e => .error e
    | .ok place => .ok (place, segments.getLast?.getD [])

def isDotted (segment : Text) : Bool := staysPut segment || segment == Path.dotDot

def content (d : Disk) (path : Text) : Except FileError Utf8.Bytes :=
  match d.locate path with
  | .error e => .error e
  | .ok (place, name) =>
    if isDotted name then .error .isDirectory
    else if isTooLong name then .error .nameTooLong
    else
      match d.lookup (place ++ [name]) with
      | none => .error .notFound
      | some .directory => .error .isDirectory
      | some (.file content) => .ok content

def write (d : Disk) (path : Text) (content : Utf8.Bytes) : FileAnswer × Disk :=
  match d.locate path with
  | .error e => (some e, d)
  | .ok (place, name) =>
    if isDotted name then (some .isDirectory, d)
    else if isTooLong name then (some .nameTooLong, d)
    else
      match d.lookup (place ++ [name]) with
      | some .directory => (some .isDirectory, d)
      | _ => (none, d.put (place ++ [name]) (.file content))

def remove (d : Disk) (path : Text) : FileAnswer × Disk :=
  match d.locate path with
  | .error e => (some e, d)
  | .ok (place, name) =>
    if isDotted name then (some .isDirectory, d)
    else if isTooLong name then (some .nameTooLong, d)
    else
      match d.lookup (place ++ [name]) with
      | none => (some .notFound, d)
      | some .directory => (some .isDirectory, d)
      | some (.file _) => (none, d.erase (place ++ [name]))

/-- A path without the slashes at its end; the root keeps its own. -/
def withoutTrailing (path : Text) : Text :=
  let trimmed := (path.reverse.dropWhile (· == Path.slash)).reverse
  if trimmed = [] then path else trimmed

/-- A file takes the place of another file, but not of a directory. Its new name has to be a
name, and one with a slash behind it would be that of a directory. -/
def rename (d : Disk) (source target : Text) : FileAnswer × Disk :=
  match d.content source, d.locate source, d.locate (withoutTrailing target) with
  | .error e, _, _ => (some e, d)
  | _, .error e, _ => (some e, d)
  | _, _, .error e => (some e, d)
  | .ok content, .ok (old, name), .ok (new, newName) =>
    if isDotted newName then (some .busy, d)
    else if isTooLong newName then (some .nameTooLong, d)
    else if target.getLast? == some Path.slash then (some .notDirectory, d)
    else
      match d.lookup (new ++ [newName]) with
      | some .directory => (some .isDirectory, d)
      | _ => (none, (d.erase (old ++ [name])).put (new ++ [newName]) (.file content))

/-- Walks down, making the directories that are missing. A file in the way that is the last
segment is reported as being there already. -/
def makeDirectories (d : Disk) (place : List Text) : List Text → FileAnswer × Disk
  | [] => (none, d)
  | segment :: rest =>
    if staysPut segment then d.makeDirectories place rest
    else if segment = Path.dotDot then d.makeDirectories place.dropLast rest
    else if isTooLong segment then (some .nameTooLong, d)
    else
      let next := place ++ [segment]
      match d.lookup next with
      | some .directory => d.makeDirectories next rest
      | some (.file _) => (some (if rest = [] then .alreadyExists else .notDirectory), d)
      | none => (d.put next .directory).makeDirectories next rest

def answer (d : Disk) : FileCall → FileAnswer × Disk
  | .makeDirectories path =>
    match pathError? path with
    | some e => (some e, d)
    | none => d.makeDirectories [] (segmentsOf path)
  | .write path content => d.write path content
  | .rename source target => d.rename source target
  | .remove path => d.remove path

/-- The paths of everything below a directory, relative to it, in the order of their units. -/
def listing (d : Disk) (below : List Text) : List Text :=
  let inside := d.entries.filterMap fun e =>
    if below.isPrefixOf e.1 && below.length < e.1.length then
      some (Text.joinWith [Path.slash] (e.1.drop below.length))
    else none
  inside.mergeSort fun a b => !Text.precedes b a

end Disk

end VirtualChannels
