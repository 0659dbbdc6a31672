import VirtualChannels.Library.Storage
import VirtualChannels.Proofs.Library.FileSystem

/-
  The file system in memory keeps what is promised of a file system (`Disk.fileSystem`), and so
  does any file system that keeps it and whose calls are made to fail at will (`withFaults`).
-/

namespace VirtualChannels

namespace Disk

/-! ## What is where -/

theorem lookup_filter_self (place : List Text) (entries : List (List Text × DiskEntry)) :
    (entries.filter fun e => e.1 ≠ place).lookup place = none := by
  rw [List.lookup_eq_none_iff]
  intro p hp
  have hne : p.1 ≠ place := of_decide_eq_true (List.mem_filter.1 hp).2
  simpa using hne.symm

theorem lookup_filter_of_ne {place q : List Text} (h : q ≠ place)
    (entries : List (List Text × DiskEntry)) :
    (entries.filter fun e => e.1 ≠ place).lookup q = entries.lookup q := by
  induction entries with
  | nil => rfl
  | cons e rest ih =>
    obtain ⟨p, x⟩ := e
    rw [List.lookup_cons]
    by_cases hp : p = place
    · rw [List.filter_cons_of_neg (by simpa using hp), ih, beq_eq_false_iff_ne.2 (hp ▸ h)]
    · rw [List.filter_cons_of_pos (by simpa using hp), List.lookup_cons, ih]

theorem lookup_erase_self {place : List Text} (h : place ≠ []) (d : Disk) :
    (d.erase place).lookup place = none := by
  unfold lookup
  rw [if_neg h]
  exact lookup_filter_self place d.entries

theorem lookup_erase_of_ne {place q : List Text} (h : q ≠ place) (d : Disk) :
    (d.erase place).lookup q = d.lookup q := by
  unfold lookup
  show (if q = [] then _ else (d.entries.filter fun e => e.1 ≠ place).lookup q) = _
  rw [lookup_filter_of_ne h]

theorem lookup_put_self {place : List Text} (h : place ≠ []) (d : Disk) (e : DiskEntry) :
    (d.put place e).lookup place = some e := by
  unfold lookup put
  rw [if_neg h, List.lookup_append]
  show ((d.entries.filter fun e => e.1 ≠ place).lookup place).or _ = _
  rw [lookup_filter_self, Option.none_or, List.lookup_cons, beq_self_eq_true]

theorem lookup_put_of_ne {place q : List Text} (h : q ≠ place) (d : Disk) (e : DiskEntry) :
    (d.put place e).lookup q = d.lookup q := by
  unfold lookup put
  rw [List.lookup_append]
  show (if q = [] then _ else ((d.entries.filter fun e => e.1 ≠ place).lookup q).or _) = _
  rw [lookup_filter_of_ne h, List.lookup_cons, beq_eq_false_iff_ne.2 h]
  congr 1
  exact Option.or_none

/-! ## Where paths lead -/

/-- Where a segment leads from a place, whatever is there. -/
def stepTo (place : List Text) (segment : Text) : List Text :=
  if staysPut segment then place
  else if segment = Path.dotDot then place.dropLast
  else place ++ [segment]

theorem stepTo_of_not_dotted {segment : Text} (h : isDotted segment = false)
    (above : List Text) : stepTo above segment = above ++ [segment] := by
  unfold isDotted at h
  rw [Bool.or_eq_false_iff] at h
  unfold stepTo
  rw [if_neg (Bool.eq_false_iff.1 h.1), if_neg (beq_eq_false_iff_ne.1 h.2)]

/-- The place of a path, whatever is there. -/
def placeOf (path : Text) : List Text := (segmentsOf path).foldl stepTo []

/-- Whether a path can be followed to its place, and ends in a name. -/
def Leads (d : Disk) (path : Text) : Prop :=
  ∃ above name, d.locate path = .ok (above, name) ∧ isDotted name = false ∧ isTooLong name = false

/-- Every directory of the first disk is one of the second. -/
def DirectoriesKept (d d' : Disk) : Prop :=
  ∀ q, d.lookup q = some .directory → d'.lookup q = some .directory

variable {d d' : Disk}

theorem enter_eq_ok {place next : List Text} {segment : Text}
    (h : d.enter place segment = .ok next) : next = stepTo place segment := by
  unfold enter at h
  unfold stepTo
  split at h
  · rename_i hs
    rw [if_pos hs]
    cases h
    rfl
  · rename_i hs
    rw [if_neg hs]
    split at h
    · rename_i hd
      rw [if_pos hd]
      cases h
      rfl
    · rename_i hd
      rw [if_neg hd]
      split at h
      · cases h
      · split at h
        · cases h
        · cases h
        · cases h
          rfl

theorem enter_of_kept (hk : DirectoriesKept d d') {place next : List Text} {segment : Text}
    (h : d.enter place segment = .ok next) : d'.enter place segment = .ok next := by
  unfold enter at h ⊢
  split at h
  · rename_i hs
    rw [if_pos hs]
    exact h
  · rename_i hs
    rw [if_neg hs]
    split at h
    · rename_i hd
      rw [if_pos hd]
      exact h
    · rename_i hd
      rw [if_neg hd]
      split at h
      · cases h
      · rename_i hl
        rw [if_neg hl]
        split at h
        · cases h
        · cases h
        · rename_i hdir
          rw [hk _ hdir]
          exact h

theorem walk_eq_ok {place next : List Text} {segments : List Text}
    (h : d.walk place segments = .ok next) : next = segments.foldl stepTo place := by
  induction segments generalizing place with
  | nil =>
    cases h
    rfl
  | cons segment rest ih =>
    unfold walk at h
    split at h
    · cases h
    · rename_i next' he
      rw [List.foldl_cons, ← enter_eq_ok he]
      exact ih h

theorem walk_of_kept (hk : DirectoriesKept d d') {place next : List Text} {segments : List Text}
    (h : d.walk place segments = .ok next) : d'.walk place segments = .ok next := by
  induction segments generalizing place with
  | nil => exact h
  | cons segment rest ih =>
    unfold walk at h ⊢
    split at h
    · cases h
    · rename_i next' he
      rw [enter_of_kept hk he]
      exact ih h

theorem locate_of_kept (hk : DirectoriesKept d d') {path : Text} {found : List Text × Text}
    (h : d.locate path = .ok found) : d'.locate path = .ok found := by
  unfold locate at h ⊢
  split at h
  · cases h
  · dsimp only at h ⊢
    split at h
    · cases h
    · rename_i place hw
      rw [walk_of_kept hk hw]
      exact h

theorem Leads.of_kept (hk : DirectoriesKept d d') {path : Text} (h : d.Leads path) :
    d'.Leads path := by
  obtain ⟨above, name, hl, hn⟩ := h
  exact ⟨above, name, locate_of_kept hk hl, hn⟩

theorem splitOn_ne_nil (separator : CodeUnit → Bool) (t : Text) : t.splitOn separator ≠ [] := by
  cases t with
  | nil => simp [Text.splitOn]
  | cons u rest =>
    unfold Text.splitOn
    split
    · simp
    · split <;> simp

theorem placeOf_of_locate {path : Text} {above : List Text} {name : Text}
    (h : d.locate path = .ok (above, name)) (hn : isDotted name = false) :
    placeOf path = above ++ [name] := by
  unfold locate at h
  split at h
  · cases h
  · dsimp only at h
    split at h
    · cases h
    · rename_i place hw
      cases h
      have hne : segmentsOf path ≠ [] := splitOn_ne_nil _ path
      have hlast : (segmentsOf path).getLast?.getD [] = (segmentsOf path).getLast hne := by
        rw [List.getLast?_eq_some_getLast hne]
        rfl
      rw [hlast] at hn ⊢
      have hfold : ((segmentsOf path).dropLast ++ [(segmentsOf path).getLast hne]).foldl stepTo []
          = placeOf path := by
        rw [List.dropLast_concat_getLast hne]
        rfl
      rw [← hfold, List.foldl_append, ← walk_eq_ok hw]
      exact stepTo_of_not_dotted hn _

theorem Leads.placeOf_ne_nil {path : Text} (h : d.Leads path) : placeOf path ≠ [] := by
  obtain ⟨above, name, hl, hn, -⟩ := h
  rw [placeOf_of_locate hl hn]
  exact List.append_ne_nil_of_right_ne_nil _ (List.cons_ne_nil _ _)

/-! ## What the calls do -/

theorem directoriesKept_put {place : List Text} {content : Utf8.Bytes}
    (h : d.lookup place ≠ some .directory) : DirectoriesKept d (d.put place (.file content)) := by
  intro q hq
  have hne : q ≠ place := fun e => h (e ▸ hq)
  exact (lookup_put_of_ne hne d _).trans hq

theorem directoriesKept_erase {place : List Text} (h : d.lookup place ≠ some .directory) :
    DirectoriesKept d (d.erase place) := by
  intro q hq
  have hne : q ≠ place := fun e => h (e ▸ hq)
  exact (lookup_erase_of_ne hne d).trans hq

theorem content_of_leads {path : Text} {content : Utf8.Bytes} (h : d.Leads path)
    (hf : d.lookup (placeOf path) = some (.file content)) : d.content path = .ok content := by
  obtain ⟨above, name, hl, hn, hlong⟩ := h
  rw [placeOf_of_locate hl hn] at hf
  unfold Disk.content
  rw [hl]
  dsimp only
  rw [if_neg (Bool.eq_false_iff.1 hn), if_neg (Bool.eq_false_iff.1 hlong), hf]

theorem leads_of_content {path : Text} {content : Utf8.Bytes} (h : d.content path = .ok content) :
    d.Leads path ∧ d.lookup (placeOf path) = some (.file content) := by
  unfold Disk.content at h
  split at h
  · cases h
  · rename_i above name hl
    split at h
    · cases h
    · rename_i hn
      split at h
      · cases h
      · rename_i hlong
        split at h
        · cases h
        · cases h
        · rename_i hf
          cases h
          have hn' := Bool.eq_false_iff.2 hn
          rw [placeOf_of_locate hl hn']
          exact ⟨⟨above, name, hl, hn', Bool.eq_false_iff.2 hlong⟩, hf⟩

theorem write_cases (d : Disk) (path : Text) (content : Utf8.Bytes) :
    (∃ e, d.write path content = (some e, d)) ∨
    d.Leads path ∧ d.lookup (placeOf path) ≠ some .directory ∧
      d.write path content = (none, d.put (placeOf path) (.file content)) := by
  unfold Disk.write
  split
  · exact Or.inl ⟨_, rfl⟩
  · rename_i above name hl
    split
    · exact Or.inl ⟨_, rfl⟩
    · rename_i hn
      split
      · exact Or.inl ⟨_, rfl⟩
      · rename_i hlong
        have hn' := Bool.eq_false_iff.2 hn
        rw [placeOf_of_locate hl hn']
        split
        · exact Or.inl ⟨_, rfl⟩
        · rename_i hdir
          exact Or.inr ⟨⟨above, name, hl, hn', Bool.eq_false_iff.2 hlong⟩, hdir, rfl⟩

theorem remove_cases (d : Disk) (path : Text) :
    (∃ e, d.remove path = (some e, d)) ∧
      ¬ (d.Leads path ∧ ∃ content, d.lookup (placeOf path) = some (.file content)) ∨
    d.Leads path ∧ (∃ content, d.lookup (placeOf path) = some (.file content)) ∧
      d.remove path = (none, d.erase (placeOf path)) := by
  by_cases h : d.Leads path ∧ ∃ content, d.lookup (placeOf path) = some (.file content)
  · refine Or.inr ⟨h.1, h.2, ?_⟩
    obtain ⟨⟨above, name, hl, hn, hlong⟩, content, hf⟩ := h
    rw [placeOf_of_locate hl hn] at hf ⊢
    unfold Disk.remove
    rw [hl]
    dsimp only
    rw [if_neg (Bool.eq_false_iff.1 hn), if_neg (Bool.eq_false_iff.1 hlong), hf]
  · refine Or.inl ⟨?_, h⟩
    unfold Disk.remove
    split
    · exact ⟨_, rfl⟩
    · rename_i above name hl
      split
      · exact ⟨_, rfl⟩
      · rename_i hn
        split
        · exact ⟨_, rfl⟩
        · rename_i hlong
          have hn' := Bool.eq_false_iff.2 hn
          split
          · exact ⟨_, rfl⟩
          · exact ⟨_, rfl⟩
          · rename_i content hf
            refine absurd ⟨⟨above, name, hl, hn', Bool.eq_false_iff.2 hlong⟩, content, ?_⟩ h
            rw [placeOf_of_locate hl hn']
            exact hf

theorem withoutTrailing_eq {path : Text} (h : (path.getLast? == some Path.slash) = false) :
    withoutTrailing path = path := by
  unfold withoutTrailing
  have hdrop : path.reverse.dropWhile (· == Path.slash) = path.reverse := by
    rw [← List.head?_reverse] at h
    cases hr : path.reverse with
    | nil => rfl
    | cons u rest =>
      rw [hr, List.head?_cons] at h
      exact List.dropWhile_cons_of_neg (by simpa using h)
  rw [hdrop, List.reverse_reverse]
  exact ite_self _

theorem rename_cases (d : Disk) (source target : Text) :
    (∃ e, d.rename source target = (some e, d)) ∨
    ∃ content, d.Leads source ∧ d.lookup (placeOf source) = some (.file content) ∧
      d.Leads target ∧ d.lookup (placeOf target) ≠ some .directory ∧
      d.rename source target =
        (none, (d.erase (placeOf source)).put (placeOf target) (.file content)) := by
  unfold Disk.rename
  split
  · exact Or.inl ⟨_, rfl⟩
  · exact Or.inl ⟨_, rfl⟩
  · exact Or.inl ⟨_, rfl⟩
  · rename_i content old name new newName hc hold hnew
    split
    · exact Or.inl ⟨_, rfl⟩
    · rename_i hn
      split
      · exact Or.inl ⟨_, rfl⟩
      · rename_i hlong
        split
        · exact Or.inl ⟨_, rfl⟩
        · rename_i hslash
          rw [withoutTrailing_eq (Bool.eq_false_iff.2 hslash)] at hnew
          split
          · exact Or.inl ⟨_, rfl⟩
          · rename_i hdir
            have hn' := Bool.eq_false_iff.2 hn
            obtain ⟨hleads, hf⟩ := leads_of_content hc
            obtain ⟨above, name', hl, hname, -⟩ := id hleads
            rw [hold] at hl
            cases hl
            refine Or.inr ⟨content, hleads, hf, ⟨new, newName, hnew, hn',
              Bool.eq_false_iff.2 hlong⟩, ?_, ?_⟩
            · rw [placeOf_of_locate hnew hn']
              exact hdir
            · rw [placeOf_of_locate hnew hn', placeOf_of_locate hold hname]

/-- What is done about the first segment: it stops there, or it goes on from where the segment
leads, after it made a directory where nothing is. -/
theorem makeDirectories_cons (d : Disk) (place : List Text) (segment : Text) (rest : List Text) :
    (∃ e, d.makeDirectories place (segment :: rest) = (some e, d)) ∨
    d.makeDirectories place (segment :: rest) =
      d.makeDirectories (stepTo place segment) rest ∨
    d.lookup (stepTo place segment) = none ∧ stepTo place segment ≠ [] ∧
      d.makeDirectories place (segment :: rest) =
        (d.put (stepTo place segment) .directory).makeDirectories (stepTo place segment) rest := by
  unfold stepTo
  rw [Disk.makeDirectories]
  split
  · exact Or.inr (Or.inl rfl)
  · split
    · exact Or.inr (Or.inl rfl)
    · split
      · exact Or.inl ⟨_, rfl⟩
      · dsimp only
        split
        · exact Or.inr (Or.inl rfl)
        · exact Or.inl ⟨_, rfl⟩
        · rename_i hnone
          have hne : place ++ [segment] ≠ [] :=
            List.append_ne_nil_of_right_ne_nil _ (List.cons_ne_nil _ _)
          exact Or.inr (Or.inr ⟨hnone, hne, rfl⟩)

/-- A directory is made only where nothing is, and where segments that come first lead to. -/
theorem makeDirectories_lookup (d : Disk) (place : List Text) (segments : List Text)
    (q : List Text) :
    (d.makeDirectories place segments).2.lookup q = d.lookup q ∨
    d.lookup q = none ∧ (d.makeDirectories place segments).2.lookup q = some .directory ∧
      ∃ first, first <+: segments ∧ first ≠ [] ∧ first.foldl stepTo place = q := by
  induction segments generalizing d place with
  | nil => exact Or.inl rfl
  | cons segment rest ih =>
    -- What the rest makes from where the segment leads, the whole makes.
    have hrest (d' : Disk) :
        (d'.makeDirectories (stepTo place segment) rest).2.lookup q = d'.lookup q ∨
        d'.lookup q = none ∧
          (d'.makeDirectories (stepTo place segment) rest).2.lookup q = some .directory ∧
          ∃ first, first <+: segment :: rest ∧ first ≠ [] ∧ first.foldl stepTo place = q := by
      rcases ih d' (stepTo place segment) with h | ⟨hnone, hmade, first, hfirst, -, hplace⟩
      · exact Or.inl h
      · exact Or.inr ⟨hnone, hmade, segment :: first,
          List.cons_prefix_cons.2 ⟨rfl, hfirst⟩, List.cons_ne_nil _ _, hplace⟩
    rcases makeDirectories_cons d place segment rest with ⟨e, h⟩ | h | ⟨hnone, hne, h⟩
    · rw [h]
      exact Or.inl rfl
    · rw [h]
      exact hrest d
    · rw [h]
      by_cases hq : q = stepTo place segment
      · -- The directory that is made here is still there in the end.
        have hself : (d.put (stepTo place segment) .directory).lookup q = some .directory := by
          rw [hq]
          exact lookup_put_self hne d _
        rcases hrest (d.put (stepTo place segment) .directory) with hmade | ⟨hmade, -⟩
        · exact Or.inr ⟨hq ▸ hnone, hmade.trans hself, [segment],
            List.cons_prefix_cons.2 ⟨rfl, List.nil_prefix⟩, List.cons_ne_nil _ _, hq.symm⟩
        · rw [hself] at hmade
          cases hmade
      · have hmade := hrest (d.put (stepTo place segment) .directory)
        rw [lookup_put_of_ne hq] at hmade
        exact hmade

/-! ## Segments and texts -/

theorem segmentsOf_cons (u : CodeUnit) (rest : Text) :
    ∃ piece pieces, segmentsOf rest = piece :: pieces ∧ segmentsOf (u :: rest) =
      if u = Path.slash then [] :: piece :: pieces else (u :: piece) :: pieces := by
  obtain ⟨piece, pieces, h⟩ :=
    List.exists_cons_of_ne_nil (splitOn_ne_nil (· == Path.slash) rest)
  refine ⟨piece, pieces, h, ?_⟩
  unfold segmentsOf Text.splitOn
  rw [h]
  by_cases hu : u = Path.slash
  · rw [if_pos hu]
    exact if_pos (beq_iff_eq.2 hu)
  · rw [if_neg hu]
    exact if_neg (by simpa using hu)

/-- The first segments of a path are those of a path above it. -/
theorem exists_isAbove {path : Text} {first : List Text} (h : first <+: segmentsOf path)
    (hne : first ≠ []) : ∃ above, Path.Posix.IsAbove above path ∧ segmentsOf above = first := by
  induction path generalizing first with
  | nil =>
    obtain ⟨piece, pieces, rfl⟩ := List.exists_cons_of_ne_nil hne
    obtain ⟨rfl, hp⟩ := List.cons_prefix_cons.1 h
    rw [List.prefix_nil.1 hp]
    exact ⟨[], Or.inl rfl, rfl⟩
  | cons u rest ih =>
    obtain ⟨piece, pieces, hrest, hsegments⟩ := segmentsOf_cons u rest
    obtain ⟨p, more, rfl⟩ := List.exists_cons_of_ne_nil hne
    by_cases hu : u = Path.slash
    · rw [hsegments, if_pos hu, ← hrest] at h
      obtain ⟨rfl, hmore⟩ := List.cons_prefix_cons.1 h
      by_cases hm : more = []
      · exact ⟨[], Or.inr ⟨rest, by rw [hu]; rfl⟩, by rw [hm]; rfl⟩
      · obtain ⟨above, habove, hs⟩ := ih hmore hm
        obtain ⟨piece', pieces', hpieces, hcons⟩ := segmentsOf_cons u above
        exact ⟨u :: above, habove.cons u, by rw [hcons, if_pos hu, ← hpieces, hs]⟩
    · rw [hsegments, if_neg hu] at h
      obtain ⟨rfl, hmore⟩ := List.cons_prefix_cons.1 h
      have hfirst : piece :: more <+: segmentsOf rest := by
        rw [hrest]
        exact List.cons_prefix_cons.2 ⟨rfl, hmore⟩
      obtain ⟨above, habove, hs⟩ := ih hfirst (List.cons_ne_nil _ _)
      obtain ⟨piece', pieces', hpieces, hcons⟩ := segmentsOf_cons u above
      rw [hpieces, List.cons.injEq] at hs
      exact ⟨u :: above, habove.cons u, by rw [hcons, if_neg hu, hs.1, hs.2]⟩

theorem segmentsOf_of_not_mem {t : Text} (h : Path.slash ∉ t) : segmentsOf t = [t] := by
  induction t with
  | nil => rfl
  | cons u rest ih =>
    rw [List.mem_cons, not_or] at h
    obtain ⟨piece, pieces, hrest, hcons⟩ := segmentsOf_cons u rest
    rw [ih h.2] at hrest
    cases hrest
    rw [hcons, if_neg (Ne.symm h.1)]

/-- What is written behind a path without a slash belongs to its last segment. -/
theorem segmentsOf_append {suffix : Text} (hs : Path.slash ∉ suffix) (path : Text) :
    ∃ before last, segmentsOf path = before ++ [last] ∧
      segmentsOf (path ++ suffix) = before ++ [last ++ suffix] := by
  induction path with
  | nil =>
    exact ⟨[], [], rfl, segmentsOf_of_not_mem hs⟩
  | cons u rest ih =>
    obtain ⟨before, last, hrest, happend⟩ := ih
    obtain ⟨piece, pieces, hp, hcons⟩ := segmentsOf_cons u rest
    obtain ⟨piece', pieces', hp', hcons'⟩ := segmentsOf_cons u (rest ++ suffix)
    rw [List.cons_append, hcons, hcons']
    by_cases hu : u = Path.slash
    · rw [if_pos hu, if_pos hu, ← hp, ← hp', hrest, happend]
      exact ⟨[] :: before, last, rfl, rfl⟩
    · rw [if_neg hu, if_neg hu]
      rw [hrest] at hp
      rw [happend] at hp'
      cases before with
      | nil =>
        cases hp
        cases hp'
        exact ⟨[], u :: last, rfl, rfl⟩
      | cons b before =>
        cases hp
        cases hp'
        exact ⟨_ :: before, last, rfl, rfl⟩

/-- A longer name in the same directory is another place. -/
theorem stepTo_append_ne {suffix : Text} (h : 2 < suffix.length) (above : List Text)
    (last : Text) : stepTo above (last ++ suffix) ≠ stepTo above last := by
  have hlength : 2 < (last ++ suffix).length := by
    rw [List.length_append]
    omega
  have hname : isDotted (last ++ suffix) = false := by
    refine Bool.eq_false_iff.2 fun hd => ?_
    simp only [isDotted, staysPut, Bool.or_eq_true, beq_iff_eq] at hd
    rcases hd with (hd | hd) | hd <;> rw [hd] at hlength <;> revert hlength <;> decide
  rw [stepTo_of_not_dotted hname]
  intro e
  have hplaces := congrArg List.length e
  rw [List.length_append, List.length_singleton] at hplaces
  unfold stepTo at e hplaces
  split at e
  · rw [if_pos ‹_›] at hplaces
    omega
  · rw [if_neg ‹_›] at hplaces
    split at e
    · rw [if_pos ‹_›, List.length_dropLast] at hplaces
      omega
    · have hlast := congrArg List.length (List.cons.inj (List.append_inj_right e rfl)).1
      rw [List.length_append] at hlast
      omega

/-- A temporary file never lies where its target does. -/
theorem placeOf_temporaryPath_ne {freshId : Text} (h : Path.slash ∉ freshId) (path : Text) :
    placeOf (Library.temporaryPath path freshId) ≠ placeOf path := by
  have hdot : Path.slash ∉ Text.ofString "." := by decide
  have htmp : Path.slash ∉ Text.ofString ".tmp" := by decide
  have hfour : (Text.ofString ".tmp").length = 4 := by decide
  have htemporary : Library.temporaryPath path freshId =
      path ++ (Text.ofString "." ++ (freshId ++ Text.ofString ".tmp")) := by
    simp [Library.temporaryPath]
  have hsuffix : Path.slash ∉ Text.ofString "." ++ (freshId ++ Text.ofString ".tmp") := by
    simp only [List.mem_append, not_or]
    exact ⟨hdot, h, htmp⟩
  obtain ⟨before, last, hp, ha⟩ := segmentsOf_append hsuffix path
  unfold placeOf
  rw [htemporary, hp, ha, List.foldl_append, List.foldl_append]
  refine stepTo_append_ne ?_ _ last
  simp only [List.length_append, hfour]
  omega

/-! ## The promises -/

def view : FileView Disk where
  Place := List Text
  place := placeOf
  entry? := lookup
  Leads := Leads

theorem answer_makeDirectories (d : Disk) (path : Text) :
    (∃ e, d.answer (.makeDirectories path) = (some e, d)) ∨
      d.answer (.makeDirectories path) = d.makeDirectories [] (segmentsOf path) := by
  unfold answer
  dsimp only
  cases pathError? path with
  | some e => exact Or.inl ⟨e, rfl⟩
  | none => exact Or.inr rfl

theorem answer_write (d : Disk) (path : Text) (content : Utf8.Bytes) :
    d.answer (.write path content) = d.write path content := rfl

theorem answer_rename (d : Disk) (source target : Text) :
    d.answer (.rename source target) = d.rename source target := rfl

theorem answer_remove (d : Disk) (path : Text) : d.answer (.remove path) = d.remove path := rfl

theorem unchanged_refl (d : Disk) : view.Unchanged d d := ⟨fun _ => rfl, fun _ hp => hp⟩

theorem directoryMade_or_eq (d : Disk) (path : Text) (q : List Text) :
    (d.answer (.makeDirectories path)).2.lookup q = d.lookup q ∨
      view.DirectoryMade d (d.answer (.makeDirectories path)).2 path q := by
  rcases answer_makeDirectories d path with ⟨e, h⟩ | h
  · rw [h]
    exact Or.inl rfl
  · rw [h]
    rcases makeDirectories_lookup d [] (segmentsOf path) q with
      h | ⟨hnone, hmade, first, hfirst, hne, hplace⟩
    · exact Or.inl h
    · obtain ⟨above, habove, hs⟩ := exists_isAbove hfirst hne
      refine Or.inr ⟨hnone, hmade, above, habove, ?_⟩
      show (segmentsOf above).foldl stepTo [] = q
      rw [hs]
      exact hplace

theorem filePut_write {path : Text} (content : Utf8.Bytes) (hleads : d.Leads path)
    (hdir : d.lookup (placeOf path) ≠ some .directory) :
    view.FilePut d (d.put (placeOf path) (.file content)) path content :=
  ⟨hleads.of_kept (directoriesKept_put hdir), lookup_put_self hleads.placeOf_ne_nil d _,
    fun _ hq => lookup_put_of_ne hq d _⟩

theorem fileMoved_rename {source target : Text} {content : Utf8.Bytes} (hsource : d.Leads source)
    (hf : d.lookup (placeOf source) = some (.file content)) (htarget : d.Leads target)
    (hdir : d.lookup (placeOf target) ≠ some .directory) :
    view.FileMoved d ((d.erase (placeOf source)).put (placeOf target) (.file content)) source
      target := by
  have hkept : DirectoriesKept d (d.erase (placeOf source)) :=
    directoriesKept_erase (by rw [hf]; exact fun h => nomatch h)
  have herased : (d.erase (placeOf source)).lookup (placeOf target) ≠ some .directory := by
    by_cases hp : placeOf target = placeOf source
    · rw [hp, lookup_erase_self hsource.placeOf_ne_nil]
      exact fun h => nomatch h
    · rw [lookup_erase_of_ne hp]
      exact hdir
  refine ⟨(htarget.of_kept hkept).of_kept (directoriesKept_put herased), ?_, ?_, ?_⟩
  · show Disk.lookup _ (placeOf target) = d.lookup (placeOf source)
    rw [hf]
    exact lookup_put_self htarget.placeOf_ne_nil _ _
  · intro hne
    exact (lookup_put_of_ne hne _ _).trans (lookup_erase_self hsource.placeOf_ne_nil d)
  · intro q hq hq'
    exact (lookup_put_of_ne hq' _ _).trans (lookup_erase_of_ne hq d)

/-- The file system in memory. -/
def fileSystem : FileSystem Disk where
  toFileView := view
  answer := answer
  read := Disk.content
  makeDirectories_made := directoryMade_or_eq
  write_put := by
    intro d path content h
    rw [answer_write] at h ⊢
    rcases write_cases d path content with ⟨e, hw⟩ | ⟨hleads, hdir, hw⟩
    · rw [hw] at h
      cases h
    · rw [hw]
      exact filePut_write content hleads hdir
  write_failed := by
    intro d path content e h
    rw [answer_write] at h ⊢
    rcases write_cases d path content with ⟨e', hw⟩ | ⟨-, -, hw⟩
    · rw [hw]
      exact Or.inl (unchanged_refl d)
    · rw [hw] at h
      cases h
  rename_moved := by
    intro d source target content h hfile
    rw [answer_rename] at h ⊢
    rcases rename_cases d source target with
      ⟨e, hr⟩ | ⟨content', hsource, hf, htarget, hdir, hr⟩
    · rw [hr] at h
      cases h
    · rw [hr]
      exact fileMoved_rename hsource hf htarget hdir
  rename_failed := by
    intro d source target e h
    rw [answer_rename] at h ⊢
    rcases rename_cases d source target with ⟨e', hr⟩ | ⟨content, -, -, -, -, hr⟩
    · rw [hr]
      exact unchanged_refl d
    · rw [hr] at h
      cases h
  remove_succeeds := by
    intro d path content hleads hf
    rw [answer_remove]
    rcases remove_cases d path with ⟨-, hnot⟩ | ⟨-, -, hr⟩
    · exact absurd ⟨hleads, content, hf⟩ hnot
    · rw [hr]
  remove_gone := by
    intro d path h
    rw [answer_remove] at h ⊢
    rcases remove_cases d path with ⟨⟨e, hr⟩, -⟩ | ⟨hleads, -, hr⟩
    · rw [hr] at h
      cases h
    · rw [hr]
      exact ⟨lookup_erase_self hleads.placeOf_ne_nil d, fun q hq => lookup_erase_of_ne hq d⟩
  remove_failed := by
    intro d path e h
    rw [answer_remove] at h ⊢
    rcases remove_cases d path with ⟨⟨e', hr⟩, -⟩ | ⟨-, -, hr⟩
    · rw [hr]
      exact unchanged_refl d
    · rw [hr] at h
      cases h
  read_file := fun d path content hleads hf => content_of_leads hleads hf

end Disk

/-! ## Faults at will -/

/-- A fault of a call: the error that it answers and, where it is a write that leaves a part of
its file, how many bytes it leaves. -/
structure Fault where
  error : FileError
  left : Option Nat := none

namespace FileSystem

variable {σ : Type}

/-- Answers a call with the fault that is planned for it. Removing has no faults. -/
def answerWithFaults (fs : FileSystem σ) (s : σ × List (Option Fault)) (c : FileCall) :
    FileAnswer × (σ × List (Option Fault)) :=
  match s.2.head?.join, c with
  | some f, .makeDirectories _ => (some f.error, (fs.answer s.1 c).2, s.2.tail)
  | some f, .write path content =>
    match f.left with
    | some n => (some f.error, (fs.answer s.1 (.write path (content.take n))).2, s.2.tail)
    | none => (some f.error, s.1, s.2.tail)
  | some f, .rename _ _ => (some f.error, s.1, s.2.tail)
  | _, _ => ((fs.answer s.1 c).1, (fs.answer s.1 c).2, s.2.tail)

/-- A file system whose calls fail as planned: there is a fault, or none, for each call to come. -/
def withFaults (fs : FileSystem σ) : FileSystem (σ × List (Option Fault)) where
  Place := fs.Place
  place := fs.place
  entry? s := fs.entry? s.1
  Leads s := fs.Leads s.1
  answer := fs.answerWithFaults
  read s := fs.read s.1
  makeDirectories_made := by
    intro s path q
    unfold answerWithFaults
    cases s.2.head?.join with
    | none => exact fs.makeDirectories_made s.1 path q
    | some f => exact fs.makeDirectories_made s.1 path q
  write_put := by
    intro s path content h
    unfold answerWithFaults at h ⊢
    cases hf : s.2.head?.join with
    | none =>
      rw [hf] at h
      exact fs.write_put s.1 path content h
    | some f =>
      rw [hf] at h
      dsimp only at h
      split at h <;> cases h
  write_failed := by
    intro s path content e h
    unfold answerWithFaults at h ⊢
    cases hf : s.2.head?.join with
    | none =>
      rw [hf] at h
      exact fs.write_failed s.1 path content e h
    | some f =>
      dsimp only
      cases f.left with
      | none => exact Or.inl ⟨fun q => rfl, fun p hp => hp⟩
      | some n =>
        dsimp only
        cases hw : (fs.answer s.1 (.write path (content.take n))).1 with
        | none => exact Or.inr ⟨content.take n, fs.write_put s.1 path _ hw⟩
        | some e => exact fs.write_failed s.1 path _ e hw
  rename_moved := by
    intro s source target content h hfile
    unfold answerWithFaults at h ⊢
    cases hf : s.2.head?.join with
    | none =>
      rw [hf] at h
      exact fs.rename_moved s.1 source target content h hfile
    | some f =>
      rw [hf] at h
      cases h
  rename_failed := by
    intro s source target e h
    unfold answerWithFaults at h ⊢
    cases hf : s.2.head?.join with
    | none =>
      rw [hf] at h
      exact fs.rename_failed s.1 source target e h
    | some f => exact ⟨fun q => rfl, fun p hp => hp⟩
  remove_succeeds := by
    intro s path content hleads hfile
    unfold answerWithFaults
    cases s.2.head?.join <;> exact fs.remove_succeeds s.1 path content hleads hfile
  remove_gone := by
    intro s path h
    unfold answerWithFaults at h ⊢
    cases hf : s.2.head?.join <;> rw [hf] at h <;> exact fs.remove_gone s.1 path h
  remove_failed := by
    intro s path e h
    unfold answerWithFaults at h ⊢
    cases hf : s.2.head?.join <;> rw [hf] at h <;> exact fs.remove_failed s.1 path e h
  read_file := fun s path content hleads hf => fs.read_file s.1 path content hleads hf

end FileSystem

end VirtualChannels
