import VirtualChannels.Text.Basic

/-
  Patterns at the start of a text. A pattern that can match in several ways tries them in a
  fixed order: the first alternative before the second, something optional before its absence,
  and more units of a run before fewer. Behind a way that leads nowhere the next one is tried.
  The lengths that are tried are those of all beginnings that the pattern describes
  (`mem_lengths_iff`), so none is found first exactly if there is none (`first?_eq_none_iff`).
  Which one is found first is told by the parts of the pattern.
-/

namespace VirtualChannels

inductive Pattern where
  | unit (p : CodeUnit → Bool)
  | sequence (first second : Pattern)
  | choice (first second : Pattern)
  | optional (p : Pattern)
  | many (p : CodeUnit → Bool)

namespace Pattern

/-- A run of units with one unit at least. -/
def oneOrMore (p : CodeUnit → Bool) : Pattern := sequence (unit p) (many p)

/-- The lengths of the runs at the start of a text, the longest first. -/
def runs (p : CodeUnit → Bool) : Text → List Nat
  | [] => [0]
  | u :: rest => if p u then (runs p rest).map (1 + ·) ++ [0] else [0]

/-- The lengths of the beginnings that match, in the order in which they are tried. -/
def lengths : Pattern → Text → List Nat
  | unit _, [] => []
  | unit p, u :: _ => if p u then [1] else []
  | sequence first second, t =>
    (first.lengths t).flatMap fun n => (second.lengths (t.drop n)).map (n + ·)
  | choice first second, t => first.lengths t ++ second.lengths t
  | optional p, t => p.lengths t ++ [0]
  | many p, t => runs p t

/-- The length of the match that is found first. -/
def first? (p : Pattern) (t : Text) : Option Nat := (p.lengths t).head?

/-- The texts that a pattern describes, in whichever way. -/
inductive Matches : Pattern → Text → Prop
  | unit {p : CodeUnit → Bool} {u : CodeUnit} (h : p u = true) : Matches (unit p) [u]
  | sequence {first second : Pattern} {s t : Text} (hs : Matches first s) (ht : Matches second t) :
      Matches (sequence first second) (s ++ t)
  | left {first second : Pattern} {t : Text} (h : Matches first t) : Matches (choice first second) t
  | right {first second : Pattern} {t : Text} (h : Matches second t) :
      Matches (choice first second) t
  | absent {p : Pattern} : Matches (optional p) []
  | present {p : Pattern} {t : Text} (h : Matches p t) : Matches (optional p) t
  | many {p : CodeUnit → Bool} {t : Text} (h : ∀ u ∈ t, p u = true) : Matches (many p) t

variable {p q : Pattern} {c : CodeUnit → Bool} {s t : Text} {n : Nat}

/-! ## Described texts -/

theorem matches_unit_iff : Matches (unit c) t ↔ ∃ u, t = [u] ∧ c u = true := by
  constructor
  · intro h
    cases h with
    | unit h => exact ⟨_, rfl, h⟩
  · rintro ⟨u, rfl, h⟩
    exact .unit h

theorem matches_sequence_iff :
    Matches (sequence p q) t ↔ ∃ s s', t = s ++ s' ∧ Matches p s ∧ Matches q s' := by
  constructor
  · intro h
    cases h with
    | sequence hp hq => exact ⟨_, _, rfl, hp, hq⟩
  · rintro ⟨s, s', rfl, hp, hq⟩
    exact .sequence hp hq

theorem matches_choice_iff : Matches (choice p q) t ↔ Matches p t ∨ Matches q t := by
  constructor
  · intro h
    cases h with
    | left h => exact Or.inl h
    | right h => exact Or.inr h
  · rintro (h | h)
    · exact .left h
    · exact .right h

theorem matches_optional_iff : Matches (optional p) t ↔ t = [] ∨ Matches p t := by
  constructor
  · intro h
    cases h with
    | absent => exact Or.inl rfl
    | present h => exact Or.inr h
  · rintro (rfl | h)
    · exact .absent
    · exact .present h

theorem matches_many_iff : Matches (many c) t ↔ ∀ u ∈ t, c u = true := by
  constructor
  · intro h
    cases h with
    | many h => exact h
  · exact .many

theorem matches_oneOrMore_iff :
    Matches (oneOrMore c) t ↔ (∀ u ∈ t, c u = true) ∧ t ≠ [] := by
  unfold oneOrMore
  rw [matches_sequence_iff]
  constructor
  · rintro ⟨s, s', rfl, hs, hs'⟩
    obtain ⟨u, rfl, hu⟩ := matches_unit_iff.1 hs
    exact ⟨List.forall_mem_cons.2 ⟨hu, matches_many_iff.1 hs'⟩, List.cons_ne_nil _ _⟩
  · rintro ⟨hall, hne⟩
    obtain ⟨u, rest, rfl⟩ := List.exists_cons_of_ne_nil hne
    obtain ⟨hu, hrest⟩ := List.forall_mem_cons.1 hall
    exact ⟨[u], rest, rfl, .unit hu, .many hrest⟩

/-! ## All matches -/

theorem mem_runs (h : ∀ u ∈ s, c u = true) (t : Text) :
    s.length ∈ runs c (s ++ t) := by
  induction s with
  | nil =>
    cases t with
    | nil => simp [runs]
    | cons u t => by_cases hu : c u = true <;> simp [runs, hu]
  | cons u s ih =>
    rw [List.forall_mem_cons] at h
    simp only [List.cons_append, runs, h.1, if_true, List.mem_append, List.mem_map,
      List.length_cons]
    exact Or.inl ⟨s.length, ih h.2, Nat.add_comm 1 _⟩

theorem of_mem_runs (h : n ∈ runs c t) :
    n ≤ t.length ∧ ∀ u ∈ t.take n, c u = true := by
  induction t generalizing n with
  | nil =>
    obtain rfl : n = 0 := by simpa [runs] using h
    simp
  | cons u t ih =>
    by_cases hu : c u = true
    · simp only [runs, hu, if_true, List.mem_append, List.mem_map, List.mem_singleton] at h
      rcases h with ⟨m, hm, rfl⟩ | rfl
      · obtain ⟨hle, hall⟩ := ih hm
        rw [Nat.add_comm, List.length_cons, List.take_succ_cons]
        exact ⟨Nat.succ_le_succ hle, List.forall_mem_cons.2 ⟨hu, hall⟩⟩
      · simp
    · obtain rfl : n = 0 := by simpa [runs, hu] using h
      simp

/-- Every beginning that is described is tried. -/
theorem Matches.mem_lengths (h : Matches p s) (t : Text) : s.length ∈ p.lengths (s ++ t) := by
  induction h generalizing t with
  | unit h => simp [lengths, h]
  | @sequence first second s' t' hs ht ihs iht =>
    have hfirst := ihs (t' ++ t)
    have hsecond := iht t
    rw [lengths, List.mem_flatMap, List.append_assoc, List.length_append]
    refine ⟨s'.length, hfirst, List.mem_map.2 ⟨t'.length, ?_, rfl⟩⟩
    rwa [List.drop_left]
  | left h ih => exact List.mem_append_left _ (ih t)
  | right h ih => exact List.mem_append_right _ (ih t)
  | absent => exact List.mem_append_right _ (List.mem_singleton.2 rfl)
  | present h ih => exact List.mem_append_left _ (ih t)
  | many h => exact mem_runs h t

/-- Every beginning that is tried is described. -/
theorem of_mem_lengths (h : n ∈ p.lengths t) : n ≤ t.length ∧ Matches p (t.take n) := by
  induction p generalizing t n with
  | unit c =>
    cases t with
    | nil => simp [lengths] at h
    | cons u rest =>
      by_cases hu : c u = true
      · obtain rfl : n = 1 := by simpa [lengths, hu] using h
        exact ⟨by simp, .unit hu⟩
      · simp [lengths, hu] at h
  | sequence first second ihfirst ihsecond =>
    rw [lengths, List.mem_flatMap] at h
    obtain ⟨m, hm, hn⟩ := h
    obtain ⟨k, hk, rfl⟩ := List.mem_map.1 hn
    obtain ⟨hle, hfirst⟩ := ihfirst hm
    obtain ⟨hle', hsecond⟩ := ihsecond hk
    rw [List.length_drop] at hle'
    rw [List.take_add]
    exact ⟨by omega, .sequence hfirst hsecond⟩
  | choice first second ihfirst ihsecond =>
    rcases List.mem_append.1 h with h | h
    · exact ⟨(ihfirst h).1, .left (ihfirst h).2⟩
    · exact ⟨(ihsecond h).1, .right (ihsecond h).2⟩
  | optional p ih =>
    rcases List.mem_append.1 h with h | h
    · exact ⟨(ih h).1, .present (ih h).2⟩
    · rw [List.mem_singleton.1 h, List.take_zero]
      exact ⟨Nat.zero_le _, .absent⟩
  | many c => exact ⟨(of_mem_runs h).1, .many (of_mem_runs h).2⟩

/-- What is tried are the beginnings that the pattern describes. -/
theorem mem_lengths_iff : n ∈ p.lengths t ↔ n ≤ t.length ∧ Matches p (t.take n) := by
  refine ⟨of_mem_lengths, fun ⟨hle, h⟩ => ?_⟩
  have hmem := h.mem_lengths (t.drop n)
  rwa [List.take_append_drop, List.length_take, Nat.min_eq_left hle] at hmem

theorem first?_eq_none_iff : p.first? t = none ↔ ∀ s, s <+: t → ¬ Matches p s := by
  rw [first?, List.head?_eq_none_iff, List.eq_nil_iff_forall_not_mem]
  constructor
  · rintro h s ⟨rest, rfl⟩ hs
    exact h _ (hs.mem_lengths rest)
  · intro h n hn
    exact h _ (List.take_prefix n t) (mem_lengths_iff.1 hn).2

/-! ## The first match -/

/-- The pattern matches at the start of every text. -/
def Always (p : Pattern) : Prop := ∀ t, ∃ n, p.first? t = some n

theorem first?_unit_cons (c : CodeUnit → Bool) (u : CodeUnit) (rest : Text) :
    (unit c).first? (u :: rest) = if c u = true then some 1 else none := by
  by_cases hu : c u = true <;> simp [first?, lengths, hu]

theorem first?_choice (p q : Pattern) (t : Text) :
    (choice p q).first? t = (p.first? t).or (q.first? t) :=
  List.head?_append

theorem first?_optional (p : Pattern) (t : Text) :
    (optional p).first? t = some ((p.first? t).getD 0) := by
  rw [first?, lengths, List.head?_append, ← first?]
  cases p.first? t <;> rfl

theorem first?_many (c : CodeUnit → Bool) (t : Text) :
    (many c).first? t = some (t.takeWhile c).length := by
  induction t with
  | nil => rfl
  | cons u t ih =>
    have ih : (runs c t).head? = some (t.takeWhile c).length := ih
    by_cases hu : c u = true
    · simp [first?, lengths, runs, hu, ih, Nat.add_comm]
    · simp [first?, lengths, runs, hu]

theorem always_optional (p : Pattern) : Always (optional p) := fun t => ⟨_, first?_optional p t⟩

theorem always_many (c : CodeUnit → Bool) : Always (many c) := fun t => ⟨_, first?_many c t⟩

/-- Where the second pattern always matches, the first match of the first one is never given up. -/
theorem first?_sequence (hq : Always q) (p : Pattern) (t : Text) :
    (sequence p q).first? t =
      (p.first? t).map fun n => n + (q.first? (t.drop n)).getD 0 := by
  unfold first?
  rw [lengths]
  cases p.lengths t with
  | nil => rfl
  | cons n ns =>
    obtain ⟨m, hm⟩ := hq (t.drop n)
    have hm : (q.lengths (t.drop n)).head? = some m := hm
    simp [List.head?_append, List.head?_map, hm]

theorem Always.sequence (hp : Always p) (hq : Always q) : Always (sequence p q) := by
  intro t
  obtain ⟨n, hn⟩ := hp t
  rw [first?_sequence hq, hn]
  exact ⟨_, rfl⟩

/-- A single unit has one way to match. -/
theorem first?_unit_sequence (c : CodeUnit → Bool) (q : Pattern) (u : CodeUnit) (rest : Text) :
    (sequence (unit c) q).first? (u :: rest) =
      if c u = true then (q.first? rest).map (1 + ·) else none := by
  by_cases hu : c u = true <;> simp [first?, lengths, hu]

/-- A unit that may be absent is given up where the pattern behind it does not match. -/
theorem first?_optional_unit_sequence (c : CodeUnit → Bool) (q : Pattern) (u : CodeUnit)
    (rest : Text) : (sequence (optional (unit c)) q).first? (u :: rest) =
      if c u = true then ((q.first? rest).map (1 + ·)).or (q.first? (u :: rest))
      else q.first? (u :: rest) := by
  by_cases hu : c u = true <;> simp [first?, lengths, hu, List.head?_append]

theorem first?_oneOrMore (c : CodeUnit → Bool) (t : Text) : (oneOrMore c).first? t =
    if (t.takeWhile c).length = 0 then none else some (t.takeWhile c).length := by
  unfold oneOrMore
  rw [first?_sequence (always_many c)]
  cases t with
  | nil => rfl
  | cons u t =>
    rw [first?_unit_cons]
    by_cases hu : c u = true
    · simp [hu, first?_many, Nat.add_comm]
    · simp [hu]

end Pattern

end VirtualChannels
