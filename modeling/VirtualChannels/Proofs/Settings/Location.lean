import VirtualChannels.Proofs.Path.Joining
import VirtualChannels.Settings

/-
  Where the library file lies. An environment with a fault is refused with all its faults and
  nothing else (`mem_faults_iff`). Otherwise the file is the one that is named, or the one of
  the usual name in the directory that is named, or in the directory for settings of the
  platform. The path to it is absolute but in one case: nothing is named, and the root for the
  settings of users is relative, which no check refuses (`libraryFile_located`).
-/

namespace VirtualChannels

open Path.Posix (isAbsolute join)

namespace Setting

/-- The variables that hold a path. -/
def IsPath (s : Setting) : Prop := s = libraryPath ∨ s = directory

/-- The text of a variable that is set to a text which is not empty. -/
def given? (env : Environment) (s : Setting) : Option Text :=
  ((env.lookup s.name).bind Json.Value.text?).filter (· ≠ [])

/-- The variable is not set, or to a text. If it holds a path, that is empty or absolute. -/
def IsSound (env : Environment) (s : Setting) : Prop :=
  ∀ v, env.lookup s.name = some v → ∃ t, v = .text t ∧ (s.IsPath → t = [] ∨ isAbsolute t = true)

end Setting

open Setting (given? IsSound)

/-! ## Faults -/

namespace SettingFault

/-- The variable that the fault is about. -/
def setting : SettingFault → Setting
  | notText s _ => s
  | notAbsolute s => s

/-- What the environment has to be like for a fault. -/
inductive Describes (env : Environment) : SettingFault → Prop
  | notText {s : Setting} {v : Json.Value} (h : env.lookup s.name = some v) (hv : v.text? = none) :
      Describes env (.notText s v.kind)
  | notAbsolute {s : Setting} {t : Text} (hs : s.IsPath) (h : env.lookup s.name = some (.text t))
      (hne : t ≠ []) (ht : isAbsolute t = false) : Describes env (.notAbsolute s)

variable {env : Environment} {fault fault' : SettingFault}

theorem Describes.not_isSound (h : fault.Describes env) : ¬ IsSound env fault.setting := by
  intro hsound
  cases h with
  | notText h hv =>
    obtain ⟨t, rfl, -⟩ := hsound _ h
    cases hv
  | notAbsolute hs h hne ht =>
    obtain ⟨t, heq, hpath⟩ := hsound _ h
    cases heq
    rcases hpath hs with hnil | habsolute
    · exact hne hnil
    · rw [ht] at habsolute
      cases habsolute

/-- There is one thing at most that is wrong with a variable. -/
theorem Describes.unique (h : fault.Describes env) (h' : fault'.Describes env)
    (hs : fault.setting = fault'.setting) : fault = fault' := by
  cases h with
  | notText h hv =>
    cases h' with
    | notText h' hv' =>
      cases hs
      rw [h] at h'
      cases h'
      rfl
    | notAbsolute hs' h' hne ht =>
      cases hs
      rw [h] at h'
      cases h'
      cases hv
  | notAbsolute hs' h hne ht =>
    cases h' with
    | notText h' hv' =>
      cases hs
      rw [h] at h'
      cases h'
      cases hv'
    | notAbsolute hs'' h' hne' ht' =>
      cases hs
      rfl

end SettingFault

/-! ## Reading variables -/

namespace Settings

/-- The answer about a variable is its fault, or what is given for a variable that is sound; a text
that is empty is passed on, unless the variable holds a path. -/
inductive Answers (env : Environment) (s : Setting) : Except SettingFault (Option Text) → Prop
  | fault {fault : SettingFault} (h : fault.Describes env) (hs : fault.setting = s) :
      Answers env s (.error fault)
  | sound {x : Option Text} (h : IsSound env s) (hgiven : x.filter (· ≠ []) = given? env s)
      (hpath : s.IsPath → x = given? env s) : Answers env s (.ok x)

variable {env : Environment} {s : Setting} {fault : SettingFault}

theorem readText_cases (env : Environment) (s : Setting) :
    (env.lookup s.name = none ∧ readText env s = .ok none) ∨
    (∃ t, env.lookup s.name = some (.text t) ∧ readText env s = .ok (some t)) ∨
    ∃ v, env.lookup s.name = some v ∧ v.text? = none ∧
      readText env s = .error (.notText s v.kind) := by
  unfold readText
  cases hv : env.lookup s.name with
  | none => exact Or.inl ⟨rfl, rfl⟩
  | some v =>
    cases v with
    | text t => exact Or.inr (Or.inl ⟨t, rfl, rfl⟩)
    | null | bool | number | array | object => exact Or.inr (Or.inr ⟨_, rfl, rfl, rfl⟩)

theorem isSound_of_none (h : env.lookup s.name = none) : IsSound env s := by
  intro v hv
  rw [h] at hv
  cases hv

theorem isSound_of_text {t : Text} (h : env.lookup s.name = some (.text t))
    (ht : s.IsPath → t = [] ∨ isAbsolute t = true) : IsSound env s := by
  intro v hv
  rw [h] at hv
  cases hv
  exact ⟨t, rfl, ht⟩

theorem given?_of_none (h : env.lookup s.name = none) : given? env s = none := by
  simp [given?, h]

theorem given?_of_text {t : Text} (h : env.lookup s.name = some (.text t)) :
    given? env s = (some t).filter (· ≠ []) := by
  simp [given?, h, Json.Value.text?]

theorem answers_readText (hs : ¬ s.IsPath) : Answers env s (readText env s) := by
  rcases readText_cases env s with ⟨h, hread⟩ | ⟨t, h, hread⟩ | ⟨v, h, hv, hread⟩
  · rw [hread]
    exact .sound (isSound_of_none h) (given?_of_none h).symm fun _ => (given?_of_none h).symm
  · rw [hread]
    exact .sound (isSound_of_text h fun hpath => absurd hpath hs) (given?_of_text h).symm
      fun hpath => absurd hpath hs
  · rw [hread]
    exact .fault (.notText h hv) rfl

theorem answers_readPath (hs : s.IsPath) : Answers env s (readPath env s) := by
  unfold readPath
  rcases readText_cases env s with ⟨h, hread⟩ | ⟨t, h, hread⟩ | ⟨v, h, hv, hread⟩
  · rw [hread]
    exact .sound (isSound_of_none h) (given?_of_none h).symm fun _ => (given?_of_none h).symm
  · rw [hread]
    have hgiven := given?_of_text h
    by_cases hne : t = []
    · subst hne
      exact .sound (isSound_of_text h fun _ => Or.inl rfl) hgiven.symm fun _ => hgiven.symm
    · have hsome : given? env s = some t := by
        rw [hgiven]
        simp [Option.filter, hne]
      by_cases habsolute : isAbsolute t = true
      · simp only [hne, if_false, habsolute, if_true]
        exact .sound (isSound_of_text h fun _ => Or.inr habsolute) hgiven.symm fun _ => hsome.symm
      · simp only [hne, if_false, habsolute]
        exact .fault (.notAbsolute hs h hne (by simpa using habsolute)) rfl
  · rw [hread]
    exact .fault (.notText h hv) rfl

/-- What is read of a variable. -/
def reading (env : Environment) : Setting → Except SettingFault (Option Text)
  | .libraryPath => readPath env .libraryPath
  | .directory => readPath env .directory
  | .xdgConfigHome => readText env .xdgConfigHome
  | .appData => readText env .appData

theorem answers_reading (env : Environment) (s : Setting) : Answers env s (reading env s) := by
  cases s with
  | libraryPath => exact answers_readPath (Or.inl rfl)
  | directory => exact answers_readPath (Or.inr rfl)
  | xdgConfigHome => exact answers_readText (by simp [Setting.IsPath])
  | appData => exact answers_readText (by simp [Setting.IsPath])

/-! ## All variables -/

/-- All that is wrong with an environment. -/
def faults (env : Environment) : List SettingFault :=
  [Setting.libraryPath, .directory, .xdgConfigHome, .appData].filterMap fun s =>
    fault? (reading env s)

theorem mem_settings (s : Setting) :
    s ∈ [Setting.libraryPath, .directory, .xdgConfigHome, .appData] := by
  cases s <;> simp

theorem fault?_eq_some_iff {answer : Except SettingFault (Option Text)} :
    fault? answer = some fault ↔ answer = .error fault := by
  cases answer <;> simp [fault?]

/-- The faults are the things that are wrong with the environment. -/
theorem mem_faults_iff : fault ∈ faults env ↔ fault.Describes env := by
  unfold faults
  rw [List.mem_filterMap]
  constructor
  · rintro ⟨s, -, hfault⟩
    have hanswer := answers_reading env s
    rw [fault?_eq_some_iff.1 hfault] at hanswer
    cases hanswer with
    | fault h hs => exact h
  · intro h
    refine ⟨fault.setting, mem_settings _, fault?_eq_some_iff.2 ?_⟩
    generalize hread : reading env fault.setting = answer
    have hanswer := answers_reading env fault.setting
    rw [hread] at hanswer
    cases hanswer with
    | fault h' hs => rw [h'.unique h hs]
    | sound hsound hgiven hpath => exact absurd hsound h.not_isSound

theorem read_eq (env : Environment) : read env = match faults env with
    | [] => .ok ⟨value? (reading env .libraryPath), value? (reading env .directory),
        value? (reading env .xdgConfigHome), value? (reading env .appData)⟩
    | found => .error found := rfl

theorem read_of_faults (h : faults env ≠ []) : read env = .error (faults env) := by
  rw [read_eq]
  split
  · rename_i hnil
    exact absurd hnil h
  · rfl

/-- Without a fault all variables are sound, and what is given for them is read. -/
theorem read_of_no_faults (h : faults env = []) : (∀ s, IsSound env s) ∧
    ∃ settings, read env = .ok settings ∧ settings.libraryPath = given? env .libraryPath ∧
      settings.directory = given? env .directory ∧
      settings.xdgConfigHome.filter (· ≠ []) = given? env .xdgConfigHome := by
  have hsound (s : Setting) : IsSound env s ∧ ∃ x, reading env s = .ok x ∧
      x.filter (· ≠ []) = given? env s ∧ (s.IsPath → x = given? env s) := by
    generalize hread : reading env s = answer
    have hanswer := answers_reading env s
    rw [hread] at hanswer
    cases hanswer with
    | fault hfault hs =>
      have hmem := mem_faults_iff.2 hfault
      rw [h] at hmem
      exact absurd hmem List.not_mem_nil
    | sound hsound hgiven hpath => exact ⟨hsound, _, rfl, hgiven, hpath⟩
  obtain ⟨-, path, hpath, -, hp⟩ := hsound .libraryPath
  obtain ⟨-, directory, hdirectory, -, hd⟩ := hsound .directory
  obtain ⟨-, root, hroot, hr, -⟩ := hsound .xdgConfigHome
  refine ⟨fun s => (hsound s).1, _, by rw [read_eq, h], ?_, ?_, ?_⟩
  · rw [hpath]
    exact hp (Or.inl rfl)
  · rw [hdirectory]
    exact hd (Or.inr rfl)
  · rw [hroot]
    exact hr

end Settings

/-! ## The directory of a platform -/

theorem isPlain_libraryFileName : Path.IsPlain (· == Path.slash) libraryFileName where
  ne_nil := by decide +kernel
  ne_dot := by decide +kernel
  ne_dotDot := by decide +kernel
  unbroken := fun u hu => by
    have hall : libraryFileName.all (fun u => !(u == Path.slash)) = true := by decide +kernel
    simpa using List.all_eq_true.1 hall u hu

theorem Setting.given?_ne_nil {env : Environment} {s : Setting} {t : Text}
    (h : given? env s = some t) : t ≠ [] := by
  have hkept := (Option.filter_eq_some_iff.1 h).2
  simpa using hkept

namespace Platform

variable {env : Environment} {platform : Platform} {home : Text} {settings : Settings}

theorem nonEmptyOr_eq (default : Text) (x : Option Text) :
    nonEmptyOr default x = (x.filter (· ≠ [])).getD default := by
  cases x with
  | none => rfl
  | some t => by_cases h : t = [] <;> simp [nonEmptyOr, Option.filter, h]

theorem nonEmptyOr_ne_nil {default : Text} (h : default ≠ []) (x : Option Text) :
    nonEmptyOr default x ≠ [] := by
  cases x with
  | none => exact h
  | some t =>
    by_cases ht : t = []
    · simpa [nonEmptyOr, ht] using h
    · simp [nonEmptyOr, ht]

/-- The directory for settings is as absolute as the home, or as the root that is set. -/
theorem isAbsolute_settingsDirectory (hp : platform ≠ .windows) (hhome : isAbsolute home = true) :
    isAbsolute (platform.settingsDirectory settings home) = true ↔
      (platform = .other → ∀ root, settings.xdgConfigHome.filter (· ≠ []) = some root →
        isAbsolute root = true) := by
  have hne := Path.Posix.ne_nil_of_isAbsolute hhome
  cases platform with
  | windows => exact absurd rfl hp
  | darwin =>
    have habsolute : isAbsolute (settingsDirectory .darwin settings home) = true :=
      (Path.Posix.isAbsolute_join_cons hne _).trans hhome
    simp [habsolute]
  | other =>
    have hdefault : isAbsolute (Path.Posix.join [home, Text.ofString ".config"]) = true :=
      (Path.Posix.isAbsolute_join_cons hne _).trans hhome
    have hroot : isAbsolute (settingsDirectory .other settings home) =
        isAbsolute (nonEmptyOr (Path.Posix.join [home, Text.ofString ".config"])
          settings.xdgConfigHome) :=
      Path.Posix.isAbsolute_join_cons (nonEmptyOr_ne_nil (Path.Posix.join_ne_nil _) _) _
    rw [hroot, nonEmptyOr_eq]
    cases settings.xdgConfigHome.filter (· ≠ []) with
    | none => simp [hdefault]
    | some root => simp

/-- Where the variable of the platform is sound, the directory of the environment is that of the
settings. -/
theorem settingsDirectoryIn_eq (hp : platform ≠ .windows) (hs : ∀ s, IsSound env s)
    (hroot : settings.xdgConfigHome.filter (· ≠ []) = given? env .xdgConfigHome) :
    platform.settingsDirectoryIn env home = .ok (platform.settingsDirectory settings home) := by
  have husable : platform.unusable? env = none := by
    unfold unusable?
    cases hset : platform.setting? with
    | none => rfl
    | some s =>
      cases hv : env.lookup s.name with
      | none => simp [hv]
      | some v =>
        obtain ⟨t, rfl, -⟩ := hs s v hv
        simp [hv, Json.Value.text?]
  unfold settingsDirectoryIn
  rw [husable]
  cases platform with
  | windows => exact absurd rfl hp
  | darwin => rfl
  | other =>
    dsimp only [settingsDirectory]
    rw [nonEmptyOr_eq, nonEmptyOr_eq, hroot]
    rfl

end Platform

/-! ## The library file -/

/-- Nothing says where the library is, and the root for the settings of users is relative. -/
def Strays (env : Environment) (platform : Platform) : Prop :=
  given? env .libraryPath = none ∧ given? env .directory = none ∧ platform = .other ∧
    ∃ root, given? env .xdgConfigHome = some root ∧ isAbsolute root = false

/-- The path of the library file for an environment without faults. -/
structure Located (env : Environment) (platform : Platform) (home path : Text) : Prop where
  named : ∀ t, given? env .libraryPath = some t → path = t
  inNamed : given? env .libraryPath = none → ∀ t, given? env .directory = some t →
    path = join [t, libraryFileName]
  inUsual : given? env .libraryPath = none → given? env .directory = none →
    ∃ t, platform.settingsDirectoryIn env home = .ok t ∧ path = join [t, libraryFileName]
  absolute : isAbsolute path = true ↔ ¬ Strays env platform
  normal : given? env .libraryPath = none → isAbsolute path = true →
    ∃ segments, path = Path.slash :: Text.joinWith [Path.slash] (segments ++ [libraryFileName]) ∧
      ∀ s ∈ segments, Path.IsPlain (· == Path.slash) s

/-- The joined path with the file name is normal where it is absolute. -/
theorem exists_segments {directory : Text} (hne : directory ≠ [])
    (h : isAbsolute (join [directory, libraryFileName]) = true) :
    ∃ segments, join [directory, libraryFileName] =
        Path.slash :: Text.joinWith [Path.slash] (segments ++ [libraryFileName]) ∧
      ∀ s ∈ segments, Path.IsPlain (· == Path.slash) s := by
  rw [Path.Posix.isAbsolute_join_cons hne] at h
  exact ⟨_, Path.Posix.join_plain h isPlain_libraryFileName,
    fun s => Path.isPlain_of_mem_resolveSegments⟩

theorem isAbsolute_given {env : Environment} {s : Setting} {t : Text} (hs : s.IsPath)
    (hsound : IsSound env s) (h : given? env s = some t) : isAbsolute t = true := by
  obtain ⟨hv, hkept⟩ := Option.filter_eq_some_iff.1 h
  obtain ⟨v, hlookup, htext⟩ := Option.bind_eq_some_iff.1 hv
  obtain ⟨t', rfl, hpath⟩ := hsound v hlookup
  cases htext
  exact (hpath hs).resolve_left (Setting.given?_ne_nil h)

theorem located_libraryFile {env : Environment} {platform : Platform} {home : Text}
    {settings : Settings} (hp : platform ≠ .windows) (hhome : isAbsolute home = true)
    (hsound : ∀ s, IsSound env s) (hpath : settings.libraryPath = given? env .libraryPath)
    (hdirectory : settings.directory = given? env .directory)
    (hroot : settings.xdgConfigHome.filter (· ≠ []) = given? env .xdgConfigHome) :
    Located env platform home (settings.libraryFile platform home) := by
  have hjoin : platform.join = join := by
    cases platform with
    | windows => exact absurd rfl hp
    | darwin | other => rfl
  unfold Settings.libraryFile
  rw [hpath, hdirectory, hjoin]
  cases hgiven : given? env .libraryPath with
  | some t =>
    have habsolute := isAbsolute_given (Or.inl rfl) (hsound _) hgiven
    refine ⟨?_, ?_, ?_, ?_, ?_⟩ <;> simp [hgiven, habsolute, Strays]
  | none =>
    cases hnamed : given? env .directory with
    | some t =>
      have hne := Setting.given?_ne_nil hnamed
      have habsolute := isAbsolute_given (Or.inr rfl) (hsound _) hnamed
      refine ⟨by simp [hgiven], by simp [hnamed], by simp [hnamed], ?_, fun _ => exists_segments hne⟩
      simp [Path.Posix.isAbsolute_join_cons hne, habsolute, hnamed, Strays]
    | none =>
      have husual : platform.settingsDirectoryIn env home =
          .ok (platform.settingsDirectory settings home) :=
        Platform.settingsDirectoryIn_eq hp hsound hroot
      have hne : platform.settingsDirectory settings home ≠ [] := by
        unfold Platform.settingsDirectory
        cases platform with
        | windows => exact absurd rfl hp
        | darwin | other => exact Path.Posix.join_ne_nil _
      refine ⟨by simp [hgiven], by simp [hnamed], fun _ _ => ⟨_, husual, rfl⟩, ?_,
        fun _ => exists_segments hne⟩
      rw [Option.getD_none, Path.Posix.isAbsolute_join_cons hne,
        Platform.isAbsolute_settingsDirectory hp hhome, hroot]
      simp [Strays, hgiven, hnamed]

/-- Away from drives and with an absolute home, an environment with faults is refused with all
of them. For any other the library has the path that is named, or lies in the directory that is
named or usual; and the path is absolute exactly if the environment does not leave it to a
relative root. -/
theorem libraryFile_located (env : Environment) {platform : Platform} {home : Text}
    (hp : platform ≠ .windows) (hhome : isAbsolute home = true) :
    (∃ faults, libraryFile env platform home = .error faults ∧ (∃ s, ¬ IsSound env s) ∧
      ∀ fault, fault ∈ faults ↔ fault.Describes env) ∨
    ∃ path, libraryFile env platform home = .ok path ∧ (∀ s, IsSound env s) ∧
      Located env platform home path := by
  by_cases h : Settings.faults env = []
  · obtain ⟨hsound, settings, hread, hpath, hdirectory, hroot⟩ := Settings.read_of_no_faults h
    refine Or.inr ⟨_, ?_, hsound, located_libraryFile hp hhome hsound hpath hdirectory hroot⟩
    unfold libraryFile
    rw [hread]
  · obtain ⟨fault, more, hcons⟩ := List.exists_cons_of_ne_nil h
    have hmem : fault ∈ Settings.faults env := hcons ▸ List.mem_cons_self
    refine Or.inl ⟨_, ?_, ⟨fault.setting, (Settings.mem_faults_iff.1 hmem).not_isSound⟩,
      fun fault => Settings.mem_faults_iff⟩
    unfold libraryFile
    rw [Settings.read_of_faults h]

/-- A directory that is named, with dots in its path, before a relative root. -/
def dottedDirectory : Environment :=
  [(Setting.xdgConfigHome.name, .text "conf"), (Setting.directory.name, .text "/etc/../srv/./logs/")]

theorem libraryFile_located_dottedDirectory :
    Platform.other ≠ .windows ∧ isAbsolute "/home/test" = true ∧
      ∃ path, libraryFile dottedDirectory .other "/home/test" = .ok path ∧
        path = "/srv/logs/computed_channels.json" ∧ isAbsolute path = true := by
  have hp : Platform.other ≠ .windows := by decide
  have hhome : isAbsolute "/home/test" = true := by decide +kernel
  have hnamed : given? dottedDirectory .directory = some "/etc/../srv/./logs/" := by decide +kernel
  refine ⟨hp, hhome, ?_⟩
  rcases libraryFile_located dottedDirectory hp hhome with
    ⟨faults, herror, -⟩ | ⟨path, hok, -, hlocated⟩
  · cases herror
  · refine ⟨path, hok, ?_, hlocated.absolute.2 fun hstrays => ?_⟩
    · rw [hlocated.inNamed (by decide +kernel) _ hnamed]
      decide +kernel
    · have hnone := hstrays.2.1
      rw [hnamed] at hnone
      cases hnone

/-- A relative root for the settings of users. -/
def relativeRoot : Environment := [(Setting.xdgConfigHome.name, .text "conf")]

/-- The path is neither refused nor absolute. -/
theorem libraryFile_relative :
    libraryFile relativeRoot .other "/home/test" =
        .ok "conf/computed-channels/computed_channels.json" ∧
      isAbsolute "conf/computed-channels/computed_channels.json" = false ∧
      ¬ ∀ (env : Environment) (platform : Platform) (home : Text), platform ≠ .windows →
        isAbsolute home = true → (∃ faults, libraryFile env platform home = .error faults) ∨
          ∃ path, libraryFile env platform home = .ok path ∧ isAbsolute path = true := by
  have hfile : libraryFile relativeRoot .other "/home/test" =
      .ok "conf/computed-channels/computed_channels.json" := rfl
  have hrelative : isAbsolute "conf/computed-channels/computed_channels.json" = false := by
    decide +kernel
  refine ⟨hfile, hrelative, fun hall => ?_⟩
  rcases hall relativeRoot .other "/home/test" (by decide) (by decide +kernel) with
    ⟨faults, herror⟩ | ⟨path, hok, habsolute⟩
  · rw [hfile] at herror
    cases herror
  · rw [hfile] at hok
    cases hok
    rw [hrelative] at habsolute
    cases habsolute

end VirtualChannels
