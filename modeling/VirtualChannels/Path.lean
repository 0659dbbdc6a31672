import VirtualChannels.Text.Basic

/-
  Paths to files, with slashes or with drive letters and network shares.
-/

namespace VirtualChannels.Path

/-! ## Slashes

Joining puts a slash between the parts that are not empty and then resolves empty and dotted
segments; an absolute path never climbs above its root. -/

def slash : CodeUnit := 0x2F

def dot : Text := "."

def dotDot : Text := ".."

/-- One more segment on a resolved list, which is held last segment first. A climb takes back
the last segment; where there is none to take back it stays, if the path may leave its start. -/
def pushSegment (mayClimb : Bool) (resolved : List Text) (segment : Text) : List Text :=
  if segment = [] || segment = dot then resolved
  else if segment = dotDot then
    match resolved with
    | last :: before =>
      if last = dotDot then (if mayClimb then segment :: resolved else resolved) else before
    | [] => if mayClimb then [segment] else []
  else segment :: resolved

/-- The segments between separators, resolved. -/
def resolveSegments (mayClimb : Bool) (isSeparator : CodeUnit → Bool) (path : Text) : List Text :=
  ((path.splitOn isSeparator).foldl (pushSegment mayClimb) []).reverse

end VirtualChannels.Path

namespace VirtualChannels.Path.Posix

def isAbsolute (path : Text) : Bool := path.head? == some slash

def normalize (path : Text) : Text :=
  if path = [] then dot
  else
    let absolute := isAbsolute path
    let tail := Text.joinWith [slash] (resolveSegments (!absolute) (· == slash) path)
    let trailing := path.getLast? == some slash
    if tail = [] then
      if absolute then [slash] else if trailing then dot ++ [slash] else dot
    else
      (if absolute then [slash] else []) ++ tail ++ (if trailing then [slash] else [])

def join (parts : List Text) : Text :=
  normalize (Text.joinWith [slash] (parts.filter (· ≠ [])))

/-- The path without its last segment and the slash before it; trailing slashes do not count.
Where nothing is left, the root or the working directory. -/
def directoryName (path : Text) : Text :=
  let trimmed := path.reverse.dropWhile (· == slash)
  let above := trimmed.dropWhile (· ≠ slash)
  match above with
  | [] => if isAbsolute path then [slash] else dot
  | _ :: before => if before = [] then [slash] else before.reverse

end VirtualChannels.Path.Posix

namespace VirtualChannels.Path.Drive

/-! ## Drives

Both slashes separate; the result is written with backslashes. The part before the segments (the
volume) is kept apart from them. A path that names a device is left as it is, and a relative path
never comes to look like one that begins with a drive. -/

def backslash : CodeUnit := 0x5C

def colon : CodeUnit := 0x3A

def isSeparator (u : CodeUnit) : Bool := u == slash || u == backslash

/-- The names of devices in lower case; ports have a digit or one of three raised ones. -/
def deviceNames : List Text :=
  ["con", "prn", "aux", "nul"].map Text.ofString ++
    (Text.ofString "123456789¹²³").flatMap fun u =>
      [Text.ofString "com" ++ [u], Text.ofString "lpt" ++ [u]]

/-- The text before the first colon. -/
def beforeColon (t : Text) : Text := t.takeWhile (· != colon)

/-- Whether a text begins with the name of a device and a colon. -/
def beginsDevice (t : Text) : Bool :=
  t.contains colon && deviceNames.contains (beforeColon t).lowerAscii

/-- Whether a text begins with a drive. -/
def beginsDrive : Text → Bool
  | u :: v :: _ => u.isLetter && v == colon
  | _ => false

/-- Whether a colon stands at the end of a segment. -/
def colonEndsSegment (path : Text) : Bool :=
  (path.splitOn isSeparator).any fun segment => segment.getLast? == some colon

/-- The volume a path begins with, whether its segments start at the root of the volume, and
the text of the segments. `share` is a network share with nothing after it. -/
inductive Root
  | share (name : Text)
  | volume (name : Text) (absolute : Bool) (rest : Text)

/-- The root of a path that begins with two separators: a share needs a server and a share
name, with separators between them. A dot or a question mark as the server stands for the
machine itself, and a device there belongs to the root. -/
def shareRoot (path : Text) : Root :=
  let server := (path.drop 2).takeWhile (!isSeparator ·)
  let gap := (path.drop (2 + server.length)).takeWhile isSeparator
  let rest := path.drop (2 + server.length + gap.length)
  let name := rest.takeWhile (!isSeparator ·)
  let tail := rest.dropWhile (!isSeparator ·)
  if server = [] || gap = [] || rest = [] then .volume [] true path
  else if server = dot || server = "?" then
    let inside := path.drop 4
    if beginsDevice inside then
      let device := beforeColon inside ++ [colon]
      .volume (Text.ofString "\\\\?\\" ++ device) true (inside.drop device.length)
    else .volume ([backslash, backslash] ++ server) true inside
  else
    let share := [backslash, backslash] ++ server ++ [backslash] ++ name
    if tail = [] then .share (share ++ [backslash]) else .volume share true tail

def root : Text → Root
  | u :: v :: rest =>
    if isSeparator u then
      if isSeparator v then shareRoot (u :: v :: rest) else .volume [] true (v :: rest)
    else if u.isLetter && v == colon then
      match rest with
      | w :: tail => if isSeparator w then .volume [u, v] true tail else .volume [u, v] false rest
      | [] => .volume [u, v] false []
    else .volume [] false (u :: v :: rest)
  | path => .volume [] false path

def normalize (path : Text) : Text :=
  match path with
  | [] => dot
  | [u] => if u == slash then [backslash] else path
  | _ =>
    match root path with
    | .share name => name
    | .volume name absolute rest =>
      let tail := Text.joinWith [backslash] (resolveSegments (!absolute) isSeparator rest)
      let tail := if tail = [] && !absolute then dot else tail
      let trailing := path.getLast?.any isSeparator
      let tail := if tail ≠ [] && trailing then tail ++ [backslash] else tail
      if absolute then name ++ [backslash] ++ tail
      else if name = [] && (beginsDrive tail || colonEndsSegment path) then
        dot ++ [backslash] ++ tail
      else name ++ tail

/-- A share is meant when exactly two separators begin the first part and something follows
them; any other run of separators at the start of the joined text counts as one. -/
def beginsShare (first : Text) : Bool :=
  match first with
  | u :: v :: w :: _ => isSeparator u && isSeparator v && !isSeparator w
  | _ => false

/-- The parts that are not empty, with a backslash between neighbours. -/
def concatenate (parts : List Text) : Text :=
  let parts := parts.filter (· ≠ [])
  let joined := Text.joinWith [backslash] parts
  let start := joined.takeWhile isSeparator
  if 2 ≤ start.length && !(parts.head?.any beginsShare) then
    backslash :: joined.drop start.length
  else joined

def join (parts : List Text) : Text :=
  let joined := concatenate parts
  if (joined.splitOn (· == backslash)).any beginsDevice then
    joined.map fun u => if u == slash then backslash else u
  else normalize joined

end VirtualChannels.Path.Drive
