import VirtualChannels.Path

/-
  What joining does to a path. The joined path is absolute exactly if its first part is
  (`isAbsolute_join`), whatever dots and slashes the parts hold; a plain name that is joined to an
  absolute path becomes its last segment, behind the resolved segments of the path (`join_plain`).
-/

namespace VirtualChannels

namespace Text

variable {separator : CodeUnit → Bool}

theorem exists_splitOn_cons (separator : CodeUnit → Bool) (t : Text) :
    ∃ piece pieces, t.splitOn separator = piece :: pieces := by
  cases t with
  | nil => exact ⟨[], [], rfl⟩
  | cons u rest =>
    unfold splitOn
    split
    · exact ⟨[u], [], rfl⟩
    · split
      · exact ⟨_, _, rfl⟩
      · exact ⟨_, _, rfl⟩

theorem splitOn_cons_of_pos {u : CodeUnit} (h : separator u = true) (t : Text) :
    splitOn separator (u :: t) = [] :: t.splitOn separator := by
  obtain ⟨piece, pieces, ht⟩ := exists_splitOn_cons separator t
  simp [splitOn, ht, h]

theorem splitOn_cons_of_neg {u : CodeUnit} {t piece : Text} {pieces : List Text}
    (h : separator u = false) (ht : t.splitOn separator = piece :: pieces) :
    splitOn separator (u :: t) = (u :: piece) :: pieces := by
  simp [splitOn, ht, h]

theorem splitOn_of_forall {t : Text} (h : ∀ u ∈ t, separator u = false) :
    t.splitOn separator = [t] := by
  induction t with
  | nil => rfl
  | cons u t ih =>
    rw [List.forall_mem_cons] at h
    exact splitOn_cons_of_neg h.1 (ih h.2)

/-- A separator ends what stands before it. -/
theorem splitOn_append {u : CodeUnit} (h : separator u = true) (s t : Text) :
    splitOn separator (s ++ u :: t) = s.splitOn separator ++ t.splitOn separator := by
  induction s with
  | nil => exact splitOn_cons_of_pos h t
  | cons v s ih =>
    by_cases hv : separator v = true
    · rw [List.cons_append, splitOn_cons_of_pos hv, splitOn_cons_of_pos hv, ih, List.cons_append]
    · have hv : separator v = false := by simpa using hv
      obtain ⟨piece, pieces, hs⟩ := exists_splitOn_cons separator s
      rw [hs, List.cons_append] at ih
      rw [List.cons_append, splitOn_cons_of_neg hv ih, splitOn_cons_of_neg hv hs, List.cons_append]

theorem separator_of_mem_splitOn {t piece : Text} (h : piece ∈ t.splitOn separator) {u : CodeUnit}
    (hu : u ∈ piece) : separator u = false := by
  induction t generalizing piece with
  | nil =>
    rw [List.mem_singleton.1 h] at hu
    exact absurd hu (List.not_mem_nil)
  | cons v t ih =>
    by_cases hv : separator v = true
    · rw [splitOn_cons_of_pos hv, List.mem_cons] at h
      rcases h with rfl | h
      · exact absurd hu (List.not_mem_nil)
      · exact ih h hu
    · have hv : separator v = false := by simpa using hv
      obtain ⟨first, pieces, ht⟩ := exists_splitOn_cons separator t
      rw [splitOn_cons_of_neg hv ht, List.mem_cons] at h
      rcases h with rfl | h
      · rcases List.mem_cons.1 hu with rfl | hu
        · exact hv
        · exact ih (ht ▸ List.mem_cons_self) hu
      · exact ih (ht ▸ List.mem_cons_of_mem first h) hu

theorem head?_joinWith {separator t : Text} (h : t ≠ []) (ts : List Text) :
    (joinWith separator (t :: ts)).head? = t.head? := by
  obtain ⟨u, t, rfl⟩ := List.exists_cons_of_ne_nil h
  cases ts with
  | nil => rfl
  | cons s ts => rfl

theorem joinWith_ne_nil {separator t : Text} (h : t ≠ []) (ts : List Text) :
    joinWith separator (t :: ts) ≠ [] := by
  intro hnil
  have hhead : (joinWith separator (t :: ts)).head? = t.head? := head?_joinWith h ts
  rw [hnil] at hhead
  exact h (List.head?_eq_none_iff.1 hhead.symm)

end Text

namespace Path

/-- A segment that names something: it is not empty, not dotted, and holds no separator. -/
structure IsPlain (isSeparator : CodeUnit → Bool) (segment : Text) : Prop where
  ne_nil : segment ≠ []
  ne_dot : segment ≠ dot
  ne_dotDot : segment ≠ dotDot
  unbroken : ∀ u ∈ segment, isSeparator u = false

variable {isSeparator : CodeUnit → Bool}

/-! ## Resolving segments -/

theorem pushSegment_of_plain {segment : Text} (h : IsPlain isSeparator segment) (mayClimb : Bool)
    (resolved : List Text) : pushSegment mayClimb resolved segment = segment :: resolved := by
  simp [pushSegment, h.ne_nil, h.ne_dot, h.ne_dotDot]

theorem mem_pushSegment {mayClimb : Bool} {resolved : List Text} {segment s : Text}
    (h : s ∈ pushSegment mayClimb resolved segment) :
    s ∈ resolved ∨ s = segment ∧ s ≠ [] ∧ s ≠ dot ∧ (s = dotDot → mayClimb = true) := by
  unfold pushSegment at h
  split at h
  · exact Or.inl h
  · rename_i hkept
    rw [Bool.or_eq_true, decide_eq_true_eq, decide_eq_true_eq, not_or] at hkept
    split at h
    · rename_i hup
      split at h
      · rename_i last before
        split at h
        · split at h
          · rename_i hclimb
            rcases List.mem_cons.1 h with rfl | h
            · exact Or.inr ⟨rfl, hkept.1, hkept.2, fun _ => hclimb⟩
            · exact Or.inl h
          · exact Or.inl h
        · exact Or.inl (List.mem_cons_of_mem last h)
      · split at h
        · rename_i hclimb
          rw [List.mem_singleton] at h
          exact Or.inr ⟨h, h ▸ hkept.1, h ▸ hkept.2, fun _ => hclimb⟩
        · exact Or.inl h
    · rename_i hdown
      rcases List.mem_cons.1 h with rfl | h
      · exact Or.inr ⟨rfl, hkept.1, hkept.2, fun hup => absurd hup hdown⟩
      · exact Or.inl h

theorem mem_foldl_pushSegment {mayClimb : Bool} {segments resolved : List Text} {s : Text}
    (h : s ∈ segments.foldl (pushSegment mayClimb) resolved) :
    s ∈ resolved ∨ s ∈ segments ∧ s ≠ [] ∧ s ≠ dot ∧ (s = dotDot → mayClimb = true) := by
  induction segments generalizing resolved with
  | nil => exact Or.inl h
  | cons segment segments ih =>
    rcases ih h with h | ⟨hmem, hs⟩
    · rcases mem_pushSegment h with h | ⟨rfl, hs⟩
      · exact Or.inl h
      · exact Or.inr ⟨List.mem_cons_self, hs⟩
    · exact Or.inr ⟨List.mem_cons_of_mem segment hmem, hs⟩

/-- Resolved segments are segments of the path that are not empty and no single dot; only those of
a path that may leave its start climb. -/
theorem mem_resolveSegments {mayClimb : Bool} {path s : Text}
    (h : s ∈ resolveSegments mayClimb isSeparator path) :
    s ∈ path.splitOn isSeparator ∧ s ≠ [] ∧ s ≠ dot ∧ (s = dotDot → mayClimb = true) := by
  rcases mem_foldl_pushSegment (List.mem_reverse.1 h) with h | h
  · exact absurd h (List.not_mem_nil)
  · exact h

/-- A path that may not leave its start never climbs above it. -/
theorem isPlain_of_mem_resolveSegments {path s : Text}
    (h : s ∈ resolveSegments false isSeparator path) : IsPlain isSeparator s := by
  obtain ⟨hmem, hne, hdot, hclimb⟩ := mem_resolveSegments h
  exact ⟨hne, hdot, fun hup => Bool.false_ne_true (hclimb hup),
    fun u => Text.separator_of_mem_splitOn hmem⟩

theorem resolveSegments_append_plain {mayClimb : Bool} {name : Text} (h : IsPlain isSeparator name)
    {u : CodeUnit} (hu : isSeparator u = true) (path : Text) :
    resolveSegments mayClimb isSeparator (path ++ u :: name) =
      resolveSegments mayClimb isSeparator path ++ [name] := by
  unfold resolveSegments
  rw [Text.splitOn_append hu, Text.splitOn_of_forall h.unbroken, List.foldl_append, List.foldl_cons,
    List.foldl_nil, pushSegment_of_plain h, List.reverse_cons]

namespace Posix

/-! ## Normal paths -/

theorem isAbsolute_slash (t : Text) : isAbsolute (slash :: t) = true := by
  simp [isAbsolute]

theorem ne_nil_of_isAbsolute {path : Text} (h : isAbsolute path = true) : path ≠ [] := by
  rintro rfl
  cases h

theorem normalize_of_isAbsolute {path : Text} (h : isAbsolute path = true) :
    ∃ trailing, normalize path =
      slash :: (Text.joinWith [slash] (resolveSegments false (· == slash) path) ++ trailing) := by
  unfold normalize
  simp only [ne_nil_of_isAbsolute h, if_false, h, Bool.not_true, if_true]
  split
  · rename_i htail
    exact ⟨[], by rw [htail]; rfl⟩
  · exact ⟨_, by rw [List.append_assoc]; rfl⟩

theorem normalize_of_not_isAbsolute {path : Text} (hne : path ≠ [])
    (h : isAbsolute path = false) :
    (normalize path).head? = dot.head? ∨ ∃ trailing, normalize path =
      Text.joinWith [slash] (resolveSegments true (· == slash) path) ++ trailing ∧
        Text.joinWith [slash] (resolveSegments true (· == slash) path) ≠ [] := by
  unfold normalize
  simp only [hne, if_false, h, Bool.not_false, Bool.false_eq_true]
  split
  · split
    · exact Or.inl rfl
    · exact Or.inl rfl
  · rename_i htail
    exact Or.inr ⟨_, rfl, htail⟩

/-- The normal form of a path begins at the root exactly if the path does. -/
theorem isAbsolute_normalize {path : Text} (hne : path ≠ []) :
    isAbsolute (normalize path) = isAbsolute path := by
  cases h : isAbsolute path with
  | true =>
    obtain ⟨trailing, hnormal⟩ := normalize_of_isAbsolute h
    rw [hnormal]
    exact isAbsolute_slash _
  | false =>
    rcases normalize_of_not_isAbsolute hne h with hhead | ⟨trailing, hnormal, htail⟩
    · unfold isAbsolute
      rw [hhead]
      rfl
    · -- The first segment that is left is not empty and has no slash.
      cases hsegments : resolveSegments true (· == slash) path with
      | nil =>
        rw [hsegments] at htail
        exact absurd rfl htail
      | cons segment segments =>
        have hmem : segment ∈ resolveSegments true (· == slash) path :=
          hsegments ▸ List.mem_cons_self
        obtain ⟨hpiece, hsegment, -, -⟩ := mem_resolveSegments hmem
        obtain ⟨u, rest, rfl⟩ := List.exists_cons_of_ne_nil hsegment
        have hu := Text.separator_of_mem_splitOn hpiece (List.mem_cons_self (a := u))
        have hhead : (normalize path).head? = some u := by
          rw [hnormal, hsegments, List.head?_append,
            Text.head?_joinWith (List.cons_ne_nil u rest)]
          rfl
        unfold isAbsolute
        rw [hhead]
        simpa using hu

theorem normalize_ne_nil (path : Text) : normalize path ≠ [] := by
  intro hnil
  by_cases hpath : path = []
  · subst hpath
    cases hnil
  · cases h : isAbsolute path with
    | true =>
      obtain ⟨trailing, hnormal⟩ := normalize_of_isAbsolute h
      rw [hnormal] at hnil
      cases hnil
    | false =>
      rcases normalize_of_not_isAbsolute hpath h with hhead | ⟨trailing, hnormal, htail⟩
      · rw [hnil] at hhead
        cases hhead
      · rw [hnormal] at hnil
        exact htail (List.append_eq_nil_iff.1 hnil).1

/-! ## Joined paths -/

/-- A joined path is absolute exactly if the first part that is not empty is. -/
theorem isAbsolute_join {parts rest : List Text} {first : Text}
    (h : parts.filter (· ≠ []) = first :: rest) :
    isAbsolute (join parts) = isAbsolute first := by
  have hfirst : first ≠ [] := by
    have hmem : first ∈ parts.filter (· ≠ []) := h ▸ List.mem_cons_self
    exact of_decide_eq_true (List.mem_filter.1 hmem).2
  unfold join
  rw [h, isAbsolute_normalize (Text.joinWith_ne_nil hfirst rest)]
  unfold isAbsolute
  rw [Text.head?_joinWith hfirst]

theorem isAbsolute_join_cons {first : Text} (h : first ≠ []) (parts : List Text) :
    isAbsolute (join (first :: parts)) = isAbsolute first :=
  isAbsolute_join (List.filter_cons_of_pos (decide_eq_true h))

theorem join_ne_nil (parts : List Text) : join parts ≠ [] := normalize_ne_nil _

theorem join_pair {first second : Text} (h : first ≠ []) (h' : second ≠ []) :
    join [first, second] = normalize (first ++ slash :: second) := by
  simp [join, h, h', Text.joinWith]

/-- A plain name behind an absolute path is the last segment of the joined path. -/
theorem join_plain {path name : Text} (h : isAbsolute path = true)
    (hname : IsPlain (· == slash) name) :
    join [path, name] =
      slash :: Text.joinWith [slash] (resolveSegments false (· == slash) path ++ [name]) := by
  have hne := ne_nil_of_isAbsolute h
  have habsolute : isAbsolute (path ++ slash :: name) = true := by
    obtain ⟨u, rest, rfl⟩ := List.exists_cons_of_ne_nil hne
    exact h
  have hlast : ((path ++ slash :: name).getLast? == some slash) = false := by
    obtain ⟨u, hu⟩ := Option.isSome_iff_exists.1 (List.getLast?_isSome.2 hname.ne_nil)
    have hplain := hname.unbroken u (List.mem_of_getLast? hu)
    rw [List.getLast?_append, List.getLast?_cons, hu]
    simpa using hplain
  have hsegments : resolveSegments false (· == slash) (path ++ slash :: name) =
      resolveSegments false (· == slash) path ++ [name] :=
    resolveSegments_append_plain hname (beq_self_eq_true slash) path
  have htail : Text.joinWith [slash] (resolveSegments false (· == slash) path ++ [name]) ≠ [] := by
    cases hresolved : resolveSegments false (· == slash) path with
    | nil => exact Text.joinWith_ne_nil hname.ne_nil []
    | cons segment segments =>
      have hmem : segment ∈ resolveSegments false (· == slash) path :=
        hresolved ▸ List.mem_cons_self
      exact Text.joinWith_ne_nil (isPlain_of_mem_resolveSegments hmem).ne_nil _
  rw [join_pair hne hname.ne_nil]
  unfold normalize
  simp only [ne_nil_of_isAbsolute habsolute, if_false, habsolute, Bool.not_true, if_true, hlast,
    hsegments, htail, Bool.false_eq_true, List.append_nil]
  rfl

end Posix

end Path

end VirtualChannels
