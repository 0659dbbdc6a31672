import Mathlib.Data.List.Induction
import Mathlib.Data.List.Nodup
import Mathlib.Data.List.Perm.Subperm
import VirtualChannels.Proofs.Number.Digits
import VirtualChannels.Reference.Scan

/-
  The identifiers of references. An identifier is new when it is assigned
  (`fresh_not_mem`), so different matched texts get different ones; it is a letter or an
  underscore and what an identifier may go on with (`isIdentifier_fresh`); and it is the matched
  text itself, or agrees with it up to a place where it has an underscore (`fresh_onset`).
-/

namespace VirtualChannels

namespace Text

/-- A text that is an identifier as a whole. -/
def IsIdentifier (t : Text) : Prop :=
  ∃ u rest, t = u :: rest ∧ u.startsIdentifier = true ∧
    ∀ v ∈ rest, v.continuesIdentifier = true

theorem IsIdentifier.ne_nil {t : Text} (h : IsIdentifier t) : t ≠ [] := by
  obtain ⟨u, rest, rfl, -, -⟩ := h
  exact List.cons_ne_nil _ _

theorem IsIdentifier.continues {t : Text} (h : IsIdentifier t) {u : CodeUnit} (hu : u ∈ t) :
    u.continuesIdentifier = true := by
  obtain ⟨v, rest, rfl, hv, hrest⟩ := h
  rcases List.mem_cons.1 hu with rfl | hu
  · exact CodeUnit.startsIdentifier.continues hv
  · exact hrest u hu

theorem IsIdentifier.append {s t : Text} (h : IsIdentifier s)
    (ht : ∀ u ∈ t, u.continuesIdentifier = true) : IsIdentifier (s ++ t) := by
  obtain ⟨u, rest, rfl, hu, hrest⟩ := h
  refine ⟨u, rest ++ t, rfl, hu, fun v hv => ?_⟩
  rcases List.mem_append.1 hv with hv | hv
  · exact hrest v hv
  · exact ht v hv

theorem continuesIdentifier_of_isDigit {u : CodeUnit} (h : u.isDigit = true) :
    u.continuesIdentifier = true := by
  simp [CodeUnit.continuesIdentifier, h]

theorem continuesIdentifier_underscore : underscore.continuesIdentifier = true := by decide

/-- A unit as it stands in an identifier. -/
def plainUnit (u : CodeUnit) : CodeUnit := if u.isLetter || u.isDigit then u else underscore

theorem plainUnit_eq_or (u : CodeUnit) : plainUnit u = u ∨ plainUnit u = underscore := by
  unfold plainUnit
  split
  · exact Or.inl rfl
  · exact Or.inr rfl

theorem continuesIdentifier_plainUnit (u : CodeUnit) :
    (plainUnit u).continuesIdentifier = true := by
  unfold plainUnit
  split
  · rename_i h
    rcases Bool.or_eq_true_iff.1 h with h | h
    · simp [CodeUnit.continuesIdentifier, CodeUnit.startsIdentifier, h]
    · exact continuesIdentifier_of_isDigit h
  · exact continuesIdentifier_underscore

theorem continuesIdentifier_of_mem_underscored {t : Text} {u : CodeUnit}
    (h : u ∈ underscored t) : u.continuesIdentifier = true := by
  fun_induction underscored t with
  | case1 => cases h
  | case2 v =>
    rw [List.mem_singleton.1 h]
    exact continuesIdentifier_plainUnit v
  | case3 v w rest hp ih =>
    rcases List.mem_cons.1 h with rfl | h
    · exact continuesIdentifier_underscore
    · exact ih h
  | case4 v w rest hp ih =>
    rcases List.mem_cons.1 h with rfl | h
    · exact continuesIdentifier_plainUnit v
    · exact ih h

/-- One text begins as another does, up to its end or to an underscore. -/
def SharesOnset (t s : Text) : Prop :=
  ∃ common restT restS, t = common ++ restT ∧ s = common ++ restS ∧
    ((restT = [] ∧ restS = []) ∨ restS.head? = some underscore)

theorem SharesOnset.refl (t : Text) : SharesOnset t t :=
  ⟨t, [], [], (List.append_nil t).symm, (List.append_nil t).symm, Or.inl ⟨rfl, rfl⟩⟩

theorem SharesOnset.of_underscore (t s : Text) : SharesOnset t (underscore :: s) :=
  ⟨[], t, underscore :: s, rfl, rfl, Or.inr rfl⟩

theorem SharesOnset.cons (u : CodeUnit) {t s : Text} (h : SharesOnset t s) :
    SharesOnset (u :: t) (u :: s) := by
  obtain ⟨common, restT, restS, rfl, rfl, hr⟩ := h
  exact ⟨u :: common, restT, restS, rfl, rfl, hr⟩

theorem SharesOnset.prepend (p : Text) {t s : Text} (h : SharesOnset t s) :
    SharesOnset (p ++ t) (p ++ s) := by
  induction p with
  | nil => exact h
  | cons u p ih => exact ih.cons u

/-- What follows the two texts may be anything on the one side; on the other it begins alike if
the texts are the same. -/
theorem SharesOnset.append {t s t' s' : Text} (h : SharesOnset t s) (h' : SharesOnset t' s') :
    SharesOnset (t ++ t') (s ++ s') := by
  obtain ⟨common, restT, restS, rfl, rfl, ⟨rfl, rfl⟩ | hr⟩ := h
  · simp only [List.append_nil]
    exact h'.prepend common
  · refine ⟨common, restT ++ t', restS ++ s', List.append_assoc .., List.append_assoc .., ?_⟩
    cases restS with
    | nil => cases hr
    | cons u restS => exact Or.inr hr

theorem SharesOnset.plainUnit {u : CodeUnit} {t s : Text} (h : SharesOnset t s) :
    SharesOnset (u :: t) (plainUnit u :: s) := by
  rcases plainUnit_eq_or u with e | e
  · rw [e]; exact h.cons u
  · rw [e]; exact .of_underscore _ _

theorem sharesOnset_underscored (t : Text) : SharesOnset t (underscored t) := by
  fun_induction underscored t with
  | case1 => exact .refl []
  | case2 u => exact (SharesOnset.refl []).plainUnit
  | case3 u v rest hp ih => exact .of_underscore _ _
  | case4 u v rest hp ih => exact ih.plainUnit

theorem exists_underscored_cons (u : CodeUnit) (rest : Text) :
    ∃ v more, underscored (u :: rest) = v :: more ∧ (v = plainUnit u ∨ v = underscore) := by
  cases rest with
  | nil => exact ⟨_, _, rfl, Or.inl rfl⟩
  | cons w rest =>
    rw [underscored]
    split
    · exact ⟨_, _, rfl, Or.inr rfl⟩
    · exact ⟨_, _, rfl, Or.inl rfl⟩

theorem isDigit_plainUnit {u : CodeUnit} (h : u.isDigit = false) :
    (plainUnit u).isDigit = false := by
  rcases plainUnit_eq_or u with e | e
  · rw [e]; exact h
  · rw [e]; decide

/-- Any text makes an identifier. -/
theorem isIdentifier_toIdentifier (t : Text) : IsIdentifier t.toIdentifier := by
  unfold toIdentifier
  dsimp only
  split
  · refine ⟨0x76, 0x5F :: underscored t, by rw [join_cons, join_cons, join_nil]; simp; rfl,
      by decide, fun v hv => ?_⟩
    rcases List.mem_cons.1 hv with rfl | hv
    · decide
    · exact continuesIdentifier_of_mem_underscored hv
  · rename_i hd
    cases e : underscored t with
    | nil => rw [e] at hd; exact absurd rfl hd
    | cons u rest =>
      have hall : ∀ v ∈ u :: rest, v.continuesIdentifier = true :=
        fun v hv => continuesIdentifier_of_mem_underscored (e ▸ hv)
      refine ⟨u, rest, rfl, ?_, fun v hv => hall v (List.mem_cons_of_mem u hv)⟩
      have hu := hall u List.mem_cons_self
      rw [e, List.head?_cons, Option.all_some] at hd
      simpa [CodeUnit.continuesIdentifier, Bool.eq_false_iff.2 hd] using hu

/-- A text that does not begin with a digit makes an identifier that begins as the text does. -/
theorem sharesOnset_toIdentifier {u : CodeUnit} (rest : Text) (hu : u.isDigit = false) :
    SharesOnset (u :: rest) (toIdentifier (u :: rest)) := by
  have hd : (underscored (u :: rest)).head?.all CodeUnit.isDigit = false := by
    obtain ⟨v, more, e, hv⟩ := exists_underscored_cons u rest
    rw [e]
    rcases hv with rfl | rfl
    · exact isDigit_plainUnit hu
    · rfl
  rw [toIdentifier, if_neg (by rw [hd]; decide)]
  exact sharesOnset_underscored _

end Text

namespace Identifier

/-! ## A fresh identifier -/

theorem numbered_injective {base : Text} {m n : Nat} (h : numbered base m = numbered base n) :
    m = n :=
  Decimal.digitText_injective (List.cons.inj (List.append_cancel_left h)).2

theorem numbered_ne (base : Text) (n : Nat) : numbered base n ≠ base := by
  intro h
  have := congrArg List.length h
  simp [numbered] at this

theorem nodup_candidates (base : Text) (used : Nat) : (candidates base used).Nodup := by
  rw [candidates, List.nodup_cons]
  constructor
  · intro h
    obtain ⟨n, -, e⟩ := List.mem_map.1 h
    exact numbered_ne base _ e
  · refine List.Nodup.map (fun m n h => ?_) List.nodup_range
    have := numbered_injective h
    omega

/-- There are more candidates than texts in use, so one of them is found. -/
theorem exists_candidate (used : List Text) (base : Text) :
    ∃ c ∈ candidates base used.length, c ∉ used := by
  by_contra h
  push Not at h
  have hle := ((nodup_candidates base used.length).subperm h).length_le
  simp only [candidates, List.length_cons, List.length_map, List.length_range] at hle
  omega

theorem fresh_mem_and_not_mem (used : List Text) (base : Text) :
    fresh used base ∈ candidates base used.length ∧ fresh used base ∉ used := by
  obtain ⟨c, hc, hu⟩ := exists_candidate used base
  have hs : ((candidates base used.length).find? fun c => !used.contains c).isSome = true := by
    rw [List.find?_isSome]
    exact ⟨c, hc, by simpa using hu⟩
  obtain ⟨d, hd⟩ := Option.isSome_iff_exists.1 hs
  rw [fresh, hd, Option.getD_some]
  exact ⟨List.mem_of_find?_eq_some hd, by simpa using List.find?_some hd⟩

theorem fresh_not_mem (used : List Text) (base : Text) : fresh used base ∉ used :=
  (fresh_mem_and_not_mem used base).2

theorem fresh_eq_or_numbered (used : List Text) (base : Text) :
    fresh used base = base ∨ ∃ n, fresh used base = numbered base n := by
  have h := (fresh_mem_and_not_mem used base).1
  rcases List.mem_cons.1 h with h | h
  · exact Or.inl h
  · obtain ⟨n, -, e⟩ := List.mem_map.1 h
    exact Or.inr ⟨n + 2, e.symm⟩

theorem fresh_of_not_mem {used : List Text} {base : Text} (h : base ∉ used) :
    fresh used base = base := by
  rw [fresh, candidates, List.find?_cons_of_pos (by simpa using h), Option.getD_some]

theorem continuesIdentifier_of_mem_number {n : Nat} {u : CodeUnit}
    (h : u ∈ Text.underscore :: Decimal.digitText n) : u.continuesIdentifier = true := by
  rcases List.mem_cons.1 h with rfl | h
  · exact Text.continuesIdentifier_underscore
  · exact Text.continuesIdentifier_of_isDigit (Decimal.isDigit_of_mem_digitText h)

theorem isIdentifier_fresh (used : List Text) (t : Text) :
    (fresh used t.toIdentifier).IsIdentifier := by
  rcases fresh_eq_or_numbered used t.toIdentifier with e | ⟨n, e⟩
  · rw [e]
    exact t.isIdentifier_toIdentifier
  · rw [e]
    exact t.isIdentifier_toIdentifier.append fun u hu => continuesIdentifier_of_mem_number hu

theorem fresh_onset {u : CodeUnit} (rest : Text) (used : List Text) (hu : u.isDigit = false) :
    Text.SharesOnset (u :: rest) (fresh used (Text.toIdentifier (u :: rest))) := by
  have h := Text.sharesOnset_toIdentifier rest hu
  rcases fresh_eq_or_numbered used (Text.toIdentifier (u :: rest)) with e | ⟨n, e⟩
  · rw [e]
    exact h
  · rw [e, numbered]
    have h' := h.append (.of_underscore [] (Decimal.digitText n))
    rwa [List.append_nil] at h'

/-! ## The identifiers of a list of matched texts -/

/-- Every matched text has one identifier and no two share it. -/
structure Distinct (a : Assignment Text) : Prop where
  names : (Assignment.names a).Nodup
  identifiers : (a.map Prod.snd).Nodup

/-- Every identifier was fresh for its matched text at some time. -/
def Fresh (a : Assignment Text) : Prop := ∀ p ∈ a, ∃ used, p.2 = fresh used p.1.toIdentifier

theorem assignOne_of_mem {a : Assignment Text} {m : Text} (h : m ∈ Assignment.names a) :
    assignOne a m = a := by
  unfold assignOne
  split
  · rfl
  · rename_i hn
    exact absurd h (Assignment.get?_eq_none_iff.1 hn)

theorem assignOne_of_not_mem {a : Assignment Text} {m : Text} (h : m ∉ Assignment.names a) :
    assignOne a m = a ++ [(m, fresh (a.map Prod.snd) m.toIdentifier)] := by
  unfold assignOne
  rw [Assignment.get?_eq_none_iff.2 h]

theorem assign_append_singleton (ms : List Text) (m : Text) :
    assign (ms ++ [m]) = assignOne (assign ms) m := by
  rw [assign, List.foldl_append]
  rfl

/-- What holds of no texts, and stays true when a text comes once more or gets the identifier
that is fresh for it, holds of every list of texts and their identifiers. -/
@[elab_as_elim]
theorem assign_induction {motive : List Text → Assignment Text → Prop} (nil : motive [] [])
    (old : ∀ ms m, m ∈ Assignment.names (assign ms) → motive ms (assign ms) →
      motive (ms ++ [m]) (assign ms))
    (new : ∀ ms m, m ∉ Assignment.names (assign ms) → motive ms (assign ms) →
      motive (ms ++ [m]) (assign ms ++ [(m, fresh ((assign ms).map Prod.snd) m.toIdentifier)]))
    (ms : List Text) : motive ms (assign ms) := by
  induction ms using List.reverseRecOn with
  | nil => exact nil
  | append_singleton ms m ih =>
    rw [assign_append_singleton]
    by_cases hm : m ∈ Assignment.names (assign ms)
    · rw [assignOne_of_mem hm]
      exact old ms m hm ih
    · rw [assignOne_of_not_mem hm]
      exact new ms m hm ih

theorem assign_distinct (ms : List Text) : Distinct (assign ms) := by
  induction ms using assign_induction with
  | nil => exact ⟨List.nodup_nil, List.nodup_nil⟩
  | old ms m hm ih => exact ih
  | new ms m hm ih =>
    constructor
    · rw [Assignment.names, List.map_append]
      exact List.nodup_append_comm.1 (List.nodup_cons.2 ⟨hm, ih.names⟩)
    · rw [List.map_append]
      exact List.nodup_append_comm.1 (List.nodup_cons.2 ⟨fresh_not_mem _ _, ih.identifiers⟩)

/-- An identifier is the one that is fresh among those assigned before it. -/
theorem eq_fresh_of_assign {ms : List Text} {earlier : Assignment Text} {p : Text × Text}
    {later : Assignment Text} (h : assign ms = earlier ++ p :: later) :
    p.2 = fresh (earlier.map Prod.snd) p.1.toIdentifier := by
  revert earlier p later
  induction ms using assign_induction with
  | nil =>
    intro earlier p later h
    exact absurd h.symm (List.append_ne_nil_of_right_ne_nil _ (List.cons_ne_nil _ _))
  | old ms m hm ih => exact ih
  | new ms m hm ih =>
    intro earlier p later h
    rcases List.eq_nil_or_concat later with rfl | ⟨before, last, rfl⟩
    · obtain ⟨hearlier, hp⟩ := List.append_inj' h rfl
      rw [← hearlier, ← List.singleton_inj.1 hp]
    · rw [List.concat_eq_append, ← List.cons_append, ← List.append_assoc] at h
      exact ih (List.append_inj' h rfl).1

theorem assign_fresh (ms : List Text) : Fresh (assign ms) := by
  intro p hp
  obtain ⟨earlier, later, h⟩ := List.append_of_mem hp
  exact ⟨_, eq_fresh_of_assign h⟩

/-- The matched texts that have an identifier are those of the list, in order of first
appearance. -/
theorem names_assign (ms : List Text) : Assignment.names (assign ms) = ms.eraseDups := by
  induction ms using assign_induction with
  | nil => rfl
  | old ms m hm ih =>
    rw [ih, List.mem_eraseDups] at hm
    have hold : [m].removeAll ms = [] := by simp [List.removeAll, hm]
    rw [List.eraseDups_append, hold, ih]
    exact (List.append_nil _).symm
  | new ms m hm ih =>
    rw [ih, List.mem_eraseDups] at hm
    have hnew : [m].removeAll ms = [m] := by simp [List.removeAll, hm]
    rw [List.eraseDups_append, hnew, Assignment.names, List.map_append, ← Assignment.names, ih]
    rfl

theorem mem_names_assign {ms : List Text} {m : Text} :
    m ∈ Assignment.names (assign ms) ↔ m ∈ ms := by
  rw [names_assign, List.mem_eraseDups]

/-- Where no two matched texts make the same identifier, none gets a number. -/
theorem eq_toIdentifier_of_assign {ms : List Text}
    (h : ∀ m ∈ ms, ∀ n ∈ ms, m.toIdentifier = n.toIdentifier → m = n) :
    ∀ p ∈ assign ms, p.2 = p.1.toIdentifier := by
  revert h
  induction ms using assign_induction with
  | nil => exact fun _ _ hp => absurd hp List.not_mem_nil
  | old ms m hm ih =>
    exact fun h => ih fun m hm n hn => h m (List.mem_append_left _ hm) n (List.mem_append_left _ hn)
  | new ms m hm ih =>
    intro h p hp
    have hold := ih fun m hm n hn => h m (List.mem_append_left _ hm) n (List.mem_append_left _ hn)
    rcases List.mem_append.1 hp with hp | hp
    · exact hold p hp
    · rw [List.mem_singleton.1 hp]
      refine fresh_of_not_mem fun hused => ?_
      obtain ⟨q, hq, heq⟩ := List.mem_map.1 hused
      have hqs := List.mem_map_of_mem (f := Prod.fst) hq
      rw [hold q hq] at heq
      obtain rfl := h _ (List.mem_append_left _ (mem_names_assign.1 hqs)) m
        (List.mem_append_right _ List.mem_cons_self) heq
      exact hm hqs

/-- Every matched text of the list has an identifier. -/
theorem exists_get?_assign {ms : List Text} {m : Text} (h : m ∈ ms) :
    ∃ identifier, (assign ms).get? m = some identifier := by
  refine Option.ne_none_iff_exists'.1 fun hn => ?_
  exact Assignment.get?_eq_none_iff.1 hn (mem_names_assign.2 h)

/-- Different matched texts have different identifiers. -/
theorem get?_assign_injective {ms : List Text} {m n identifier : Text}
    (hm : (assign ms).get? m = some identifier) (hn : (assign ms).get? n = some identifier) :
    m = n := by
  have h := (assign_distinct ms).identifiers
  have hm' := Assignment.mem_of_get?_eq_some hm
  have hn' := Assignment.mem_of_get?_eq_some hn
  exact congrArg Prod.fst (List.inj_on_of_nodup_map h hm' hn' rfl)

/-- A text is in use exactly if it is the identifier of a matched text of the list. -/
theorem mem_identifiers_assign {ms : List Text} {identifier : Text} :
    identifier ∈ (assign ms).map Prod.snd ↔
      ∃ m ∈ ms, (assign ms).get? m = some identifier := by
  constructor
  · intro h
    obtain ⟨p, hp, rfl⟩ := List.mem_map.1 h
    refine ⟨p.1, mem_names_assign.1 (List.mem_map.2 ⟨p, hp, rfl⟩), ?_⟩
    exact Assignment.get?_eq_some_of_mem (assign_distinct ms).names hp
  · rintro ⟨m, -, h⟩
    exact List.mem_map.2 ⟨_, Assignment.mem_of_get?_eq_some h, rfl⟩

end Identifier

end VirtualChannels
