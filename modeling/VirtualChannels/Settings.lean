import VirtualChannels.Json.Value
import VirtualChannels.Path

/-
  Where the library file lies: the path that the environment names, or the file of the usual
  name in the directory it names, or in the directory for settings of the platform.
-/

namespace VirtualChannels

/-- The variables of an environment; a value that is no text is a mistake of its owner. -/
abbrev Environment := List (Text × Json.Value)

structure Settings where
  libraryPath : Option Text := none
  directory : Option Text := none
  xdgConfigHome : Option Text := none
  appData : Option Text := none

inductive Setting where
  | libraryPath | directory | xdgConfigHome | appData
  deriving DecidableEq

def Setting.name : Setting → Text
  | libraryPath => "COMPUTED_CHANNELS_LIBRARY_PATH"
  | directory => "COMPUTED_CHANNELS_CONFIG_DIR"
  | xdgConfigHome => "XDG_CONFIG_HOME"
  | appData => "APPDATA"

/-- What is wrong with the value of a variable. -/
inductive SettingFault where
  | notText (setting : Setting) (found : Text)
  | notAbsolute (setting : Setting)

namespace SettingFault

def message : SettingFault → Text
  | notText s found => Text.join [s.name, ": Expected string, received ", found]
  | notAbsolute s => Text.join [s.name, ": ", s.name, " must be an absolute path"]

/-- All faults, a line for each. -/
def report (faults : List SettingFault) : Text :=
  Text.join ("Invalid computed channels configuration:" ::
    faults.map fun f => Text.join ["\n  - ", f.message])

end SettingFault

namespace Settings

/-- The text of a variable, if it is set. -/
def readText (env : Environment) (s : Setting) : Except SettingFault (Option Text) :=
  match env.lookup s.name with
  | none => .ok none
  | some (.text t) => .ok (some t)
  | some v => .error (.notText s v.kind)

/-- The absolute path of a variable; an empty one counts as not set. -/
def readPath (env : Environment) (s : Setting) : Except SettingFault (Option Text) :=
  match readText env s with
  | .error e => .error e
  | .ok none => .ok none
  | .ok (some t) =>
    if t = [] then .ok none
    else if Path.Posix.isAbsolute t then .ok (some t)
    else .error (.notAbsolute s)

def fault? {α : Type} : Except SettingFault α → Option SettingFault
  | .error e => some e
  | .ok _ => none

def value? {α : Type} : Except SettingFault (Option α) → Option α
  | .error _ => none
  | .ok x => x

/-- The settings of an environment, or everything that is wrong with them. -/
def read (env : Environment) : Except (List SettingFault) Settings :=
  let libraryPath := readPath env .libraryPath
  let directory := readPath env .directory
  let xdgConfigHome := readText env .xdgConfigHome
  let appData := readText env .appData
  match [libraryPath, directory, xdgConfigHome, appData].filterMap fault? with
  | [] => .ok ⟨value? libraryPath, value? directory, value? xdgConfigHome, value? appData⟩
  | faults => .error faults

end Settings

inductive Platform where
  | darwin | windows | other
  deriving DecidableEq

namespace Platform

def join : Platform → List Text → Text
  | windows => Path.Drive.join
  | _ => Path.Posix.join

/-- A variable that is set and not empty, else the default. -/
def nonEmptyOr (default : Text) : Option Text → Text
  | some t => if t = [] then default else t
  | none => default

/-- The directory for the settings of a user. -/
def settingsDirectory (platform : Platform) (settings : Settings) (home : Text) : Text :=
  match platform with
  | darwin => join darwin [home, "Library", "Application Support", "ComputedChannels"]
  | windows =>
    join windows [nonEmptyOr (join windows [home, "AppData", "Roaming"]) settings.appData,
      "ComputedChannels"]
  | other =>
    join other [nonEmptyOr (join other [home, ".config"]) settings.xdgConfigHome,
      "computed-channels"]

/-- The variable that says where the settings of users are. -/
def setting? : Platform → Option Setting
  | darwin => none
  | windows => some .appData
  | other => some .xdgConfigHome

end Platform

/-- A part of a path that is no text. -/
structure PartFault where
  found : Json.Value

def PartFault.message (f : PartFault) : Text :=
  let received : Text := match f.found with
    | .array _ => "an instance of Array"
    | .object _ => "an instance of Object"
    | v => Text.join ["type ", v.kind, " (", v.plain?.getD [], ")"]
  Text.join ["The \"path\" argument must be of type string. Received ", received]

namespace Platform

/-- The value of the variable of a platform, where it is something but no text. -/
def unusable? (platform : Platform) (env : Environment) : Option Json.Value :=
  (platform.setting?.bind fun s => env.lookup s.name).filter fun v =>
    !v.isNothing && v.text?.isNone

/-- The directory for the settings of a user in an environment that has not been checked. -/
def settingsDirectoryIn (platform : Platform) (env : Environment) (home : Text) :
    Except PartFault Text :=
  let text? (s : Setting) : Option Text := (env.lookup s.name).bind Json.Value.text?
  match platform.unusable? env with
  | some v => .error ⟨v⟩
  | none =>
    .ok (platform.settingsDirectory
      { xdgConfigHome := text? .xdgConfigHome, appData := text? .appData } home)

end Platform

def libraryFileName : Text := "computed_channels.json"

/-- The path of the library file. -/
def Settings.libraryFile (settings : Settings) (platform : Platform) (home : Text) : Text :=
  match settings.libraryPath with
  | some path => path
  | none =>
    platform.join
      [settings.directory.getD (platform.settingsDirectory settings home), libraryFileName]

/-- The path of the library file for an environment, or what is wrong with it. -/
def libraryFile (env : Environment) (platform : Platform) (home : Text) :
    Except (List SettingFault) Text :=
  match Settings.read env with
  | .error faults => .error faults
  | .ok settings => .ok (settings.libraryFile platform home)

end VirtualChannels
