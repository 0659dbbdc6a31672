import VirtualChannels.Proofs.Text.Utf8
import VirtualChannels.Text.Lowercase

/-
  The lower case of a part of a text. The lower case of a text is made of those of its code
  points, and only the one of a capital sigma depends on the letters around it. So a part has
  the same lower case in every text exactly if each of its capital sigmas is settled within the
  part (`SettledSigmas`): text that goes on behind a part can only take final sigmas from it,
  and text before it only other ones.
-/

namespace VirtualChannels.Text

/-- The first text stands in the second one where the test says so. -/
theorem occursIn_iff_infix {needle t : Text} : occursIn needle t = true ↔ needle <:+: t := by
  induction t with
  | nil => rw [occursIn, List.isEmpty_iff, List.infix_nil]
  | cons u t ih => rw [occursIn, Bool.or_eq_true, List.isPrefixOf_iff_prefix, ih, List.infix_cons_iff]

/-! ## Code points of parts -/

/-- No half of a surrogate pair stands at an end of the text where the other half could follow. -/
structure Whole (t : Text) : Prop where
  head : t.head?.any CodeUnit.isLowSurrogate = false
  last : t.getLast?.any CodeUnit.isHighSurrogate = false

/-- A cut that does not go through a surrogate pair is one between code points. -/
theorem codePoints_append {s t : Text} (h : s.getLast?.any CodeUnit.isHighSurrogate = false ∨
    t.head?.any CodeUnit.isLowSurrogate = false) :
    codePoints (s ++ t) = codePoints s ++ codePoints t := by
  fun_induction codePoints s with
  | case1 => rfl
  | case2 u =>
    cases t with
    | nil => rfl
    | cons v t =>
      have hpair : (u.isHighSurrogate && v.isLowSurrogate) = false := Bool.and_eq_false_iff.2 h
      rw [List.singleton_append, codePoints, hpair]
      rfl
  | case3 u v s hpair ih =>
    obtain ⟨hu, hv⟩ := Bool.and_eq_true_iff.1 hpair
    rw [List.cons_append, List.cons_append, codePoints_pair hu hv, List.cons_append, ih]
    refine h.imp_left fun hlast => ?_
    cases s with
    | nil => rfl
    | cons w s => rwa [List.getLast?_cons_cons, List.getLast?_cons_cons] at hlast
  | case4 u v s hpair ih =>
    rw [List.cons_append, List.cons_append, codePoints, if_neg hpair, List.cons_append,
      ← List.cons_append, ih]
    exact h.imp_left fun hlast => by rwa [List.getLast?_cons_cons] at hlast

theorem ofCodePoints_append (ns ms : List Nat) :
    ofCodePoints (ns ++ ms) = ofCodePoints ns ++ ofCodePoints ms :=
  List.flatMap_append

/-! ## Letters around a sigma -/

/-- Whether the first code point that is not passed over is a cased letter, where there is one. -/
def firstLetter? (ns : List Nat) : Option Bool :=
  (ns.find? fun n => !CaseTable.isPassedOver n).map CaseTable.isCased

theorem startsCased_iff {ns : List Nat} : startsCased ns = true ↔ firstLetter? ns = some true := by
  induction ns with
  | nil => exact ⟨nofun, nofun⟩
  | cons n ns ih =>
    unfold firstLetter? at ih ⊢
    rw [startsCased, List.find?_cons]
    cases CaseTable.isPassedOver n with
    | true => exact ih
    | false => exact Option.some_inj.symm

theorem firstLetter?_append (ns ms : List Nat) :
    firstLetter? (ns ++ ms) = (firstLetter? ns).or (firstLetter? ms) := by
  unfold firstLetter?
  rw [List.find?_append, Option.map_or]

/-- Whether a capital sigma is final; the code points before it are given from the nearest on. -/
def isFinal (before after : List Nat) : Bool := startsCased before && !startsCased after

theorem isFinal_iff {before after : List Nat} :
    isFinal before after = true ↔
      firstLetter? before = some true ∧ firstLetter? after ≠ some true := by
  rw [isFinal, Bool.and_eq_true, startsCased_iff, Bool.not_eq_true', ← Bool.not_eq_true, startsCased_iff]

theorem isFinal_of_append {before after rest : List Nat}
    (h : isFinal before (after ++ rest) = true) : isFinal before after = true := by
  rw [isFinal_iff, firstLetter?_append] at h
  refine isFinal_iff.2 ⟨h.1, fun hafter => h.2 ?_⟩
  rw [hafter]
  rfl

theorem isFinal_append {before after : List Nat} (h : isFinal before after = true)
    (rest : List Nat) : isFinal (before ++ rest) after = true := by
  rw [isFinal_iff] at h ⊢
  rw [firstLetter?_append, h.1]
  exact ⟨rfl, h.2⟩

/-- The letters given decide whether the sigma is final, whatever stands beyond them. -/
def Settled (before after : List Nat) : Prop :=
  firstLetter? after = some true ∨ firstLetter? before = some false ∨
    firstLetter? before = some true ∧ firstLetter? after = some false
deriving Decidable

theorem Settled.isFinal_eq {before after : List Nat} (h : Settled before after)
    (before' after' : List Nat) :
    isFinal (before ++ before') (after ++ after') = isFinal before after := by
  rw [Bool.eq_iff_iff, isFinal_iff, isFinal_iff, firstLetter?_append, firstLetter?_append]
  obtain hafter | hbefore | ⟨hbefore, hafter⟩ := h
  · simp [hafter]
  · simp [hbefore]
  · simp [hbefore, hafter]

/-- Every capital sigma among the code points is settled by the others. -/
def SettledSigmas (ns : List Nat) : Prop :=
  ∀ before after, ns = before ++ capitalSigma :: after → Settled before.reverse after

/-- The same at every place, which computes. -/
theorem settledSigmas_iff {ns : List Nat} :
    SettledSigmas ns ↔ ∀ i < ns.length, ns[i]? = some capitalSigma →
      Settled (ns.take i).reverse (ns.drop (i + 1)) := by
  constructor
  · intro h i hi hsigma
    refine h (ns.take i) (ns.drop (i + 1)) ?_
    rw [List.getElem?_eq_getElem hi, Option.some_inj] at hsigma
    rw [← hsigma, List.getElem_cons_drop, List.take_append_drop]
  · rintro h before after rfl
    have := h before.length (by simp) (by simp)
    simpa using this

instance : DecidablePred SettledSigmas := fun _ => decidable_of_iff' _ settledSigmas_iff

theorem settledSigmas_of_not_mem {ns : List Nat} (h : capitalSigma ∉ ns) : SettledSigmas ns := by
  rintro before after rfl
  exact absurd (List.mem_append_right before List.mem_cons_self) h

/-! ## Lower case between other code points -/

theorem lowerCodePoint_sigma (before rest : List Nat) :
    lowerCodePoint before capitalSigma rest =
      [if isFinal before rest then finalSigma else smallSigma] := by
  unfold lowerCodePoint
  rw [if_neg (by decide), if_pos rfl]
  rfl

theorem lowerCodePoint_of_ne {n : Nat} (h : n ≠ capitalSigma) (before rest before' rest' : List Nat) :
    lowerCodePoint before n rest = lowerCodePoint before' n rest' := by
  unfold lowerCodePoint
  rw [if_neg h, if_neg h]

/-- The lower case of code points between others; those before them are given from the nearest
on. -/
def lowerBetween (before ns after : List Nat) : List Nat :=
  match ns with
  | [] => []
  | n :: ns => lowerCodePoint before n (ns ++ after) ++ lowerBetween (n :: before) ns after

theorem lowerBetween_singleton (before : List Nat) (n : Nat) (after : List Nat) :
    lowerBetween before [n] after = lowerCodePoint before n after :=
  List.append_nil _

theorem lowerBehind_append (before ns rest : List Nat) :
    lowerBehind before (ns ++ rest) =
      lowerBetween before ns rest ++ lowerBehind (ns.reverse ++ before) rest := by
  induction ns generalizing before with
  | nil => rfl
  | cons n ns ih => simp [lowerBehind, lowerBetween, ih]

theorem lowerBehind_eq (before ns : List Nat) :
    lowerBehind before ns = lowerBetween before ns [] := by
  have := lowerBehind_append before ns []
  rwa [List.append_nil, lowerBehind, List.append_nil] at this

theorem lowerBetween_append (before ns ms after : List Nat) :
    lowerBetween before (ns ++ ms) after =
      lowerBetween before ns (ms ++ after) ++ lowerBetween (ns.reverse ++ before) ms after := by
  induction ns generalizing before with
  | nil => rfl
  | cons n ns ih => simp [lowerBetween, ih]

/-- Settled sigmas have the same lower case between any others. -/
theorem SettledSigmas.lowerBetween_eq {ns : List Nat} (h : SettledSigmas ns)
    (before after : List Nat) : lowerBetween before ns after = lowerBetween [] ns [] := by
  suffices haux : ∀ read rest, ns = read.reverse ++ rest →
      lowerBetween (read ++ before) rest after = lowerBetween read rest [] from haux [] ns rfl
  intro read rest hns
  induction rest generalizing read with
  | nil => rfl
  | cons n rest ih =>
    have hstep : lowerCodePoint (read ++ before) n (rest ++ after) =
        lowerCodePoint read n (rest ++ []) := by
      by_cases hn : n = capitalSigma
      · subst hn
        have hsettled := h read.reverse rest hns
        rw [List.reverse_reverse] at hsettled
        rw [lowerCodePoint_sigma, lowerCodePoint_sigma, hsettled.isFinal_eq, List.append_nil]
      · exact lowerCodePoint_of_ne hn _ _ _ _
    have htail := ih (n :: read) (by rw [hns, List.reverse_cons, List.append_assoc]; rfl)
    rw [lowerBetween, lowerBetween, hstep, ← htail]
    rfl

/-- A part whose sigmas are settled is found in lower case wherever it stands. -/
theorem lowercase_infix {needle t : Text} (hwhole : needle.Whole)
    (hsettled : SettledSigmas needle.codePoints) (h : needle <:+: t) :
    lowercase needle <:+: lowercase t := by
  by_cases hne : needle = []
  · rw [hne]
    exact List.nil_infix
  obtain ⟨s, r, rfl⟩ := h
  have hhead : (needle ++ r).head?.any CodeUnit.isLowSurrogate = false := by
    obtain ⟨v, vs, rfl⟩ := List.exists_cons_of_ne_nil hne
    exact hwhole.head
  have hparts : codePoints (s ++ needle ++ r) = codePoints s ++ (codePoints needle ++ codePoints r) := by
    rw [List.append_assoc, codePoints_append (.inr hhead), codePoints_append (.inl hwhole.last)]
  unfold lowercase
  rw [hparts, lowerBehind_append, lowerBehind_append, ofCodePoints_append, ofCodePoints_append,
    hsettled.lowerBetween_eq, ← lowerBehind_eq, ← List.append_assoc]
  exact List.infix_append _ _ _

/-! ## Counting sigmas -/

/-- How often a unit stands in the lower case of code points between others. -/
def countLower (u : CodeUnit) (before ns after : List Nat) : Nat :=
  (ofCodePoints (lowerBetween before ns after)).count u

theorem countLower_append (u : CodeUnit) (before ns ms after : List Nat) :
    countLower u before (ns ++ ms) after =
      countLower u before ns (ms ++ after) + countLower u (ns.reverse ++ before) ms after := by
  unfold countLower
  rw [lowerBetween_append, ofCodePoints_append, List.count_append]

theorem countLower_cons (u : CodeUnit) (before : List Nat) (n : Nat) (ns after : List Nat) :
    countLower u before (n :: ns) after =
      countLower u before [n] (ns ++ after) + countLower u (n :: before) ns after :=
  countLower_append u before [n] ns after

theorem countLower_sigma (u : CodeUnit) (before after : List Nat) :
    countLower u before [capitalSigma] after =
      (ofCodePoint (if isFinal before after then finalSigma else smallSigma)).count u := by
  rw [countLower, lowerBetween_singleton, lowerCodePoint_sigma, ofCodePoints, List.flatMap_singleton]

theorem countLower_of_ne (u : CodeUnit) {n : Nat} (h : n ≠ capitalSigma)
    (before after before' after' : List Nat) :
    countLower u before [n] after = countLower u before' [n] after' := by
  rw [countLower, countLower, lowerBetween_singleton, lowerBetween_singleton,
    lowerCodePoint_of_ne h before after before' after']

/-- A sigma has the unit in its lower case in the first surroundings only if it has it in the
second ones, whatever stands nearer to it. -/
def FewerOf (u : CodeUnit) (before after before' after' : List Nat) : Prop :=
  ∀ b a, countLower u (b ++ before) [capitalSigma] (a ++ after) ≤
    countLower u (b ++ before') [capitalSigma] (a ++ after')

section
variable {u : CodeUnit} {before before' after after' : List Nat}

theorem FewerOf.countLower_le (h : FewerOf u before after before' after') (b ns a : List Nat) :
    countLower u (b ++ before) ns (a ++ after) ≤ countLower u (b ++ before') ns (a ++ after') := by
  induction ns generalizing b with
  | nil => exact Nat.le_refl _
  | cons n ns ih =>
    rw [countLower_cons, countLower_cons u (b ++ before')]
    refine Nat.add_le_add ?_ (ih (n :: b))
    by_cases hn : n = capitalSigma
    · subst hn
      rw [← List.append_assoc, ← List.append_assoc]
      exact h b (ns ++ a)
    · exact Nat.le_of_eq (countLower_of_ne u hn _ _ _ _)

/-- One sigma that makes a difference makes one for the whole. -/
theorem FewerOf.countLower_lt (h : FewerOf u before after before' after') {b a : List Nat}
    (hlt : countLower u (b.reverse ++ before) [capitalSigma] (a ++ after) <
      countLower u (b.reverse ++ before') [capitalSigma] (a ++ after')) :
    countLower u before (b ++ capitalSigma :: a) after <
      countLower u before' (b ++ capitalSigma :: a) after' := by
  have hbefore := h.countLower_le [] b (capitalSigma :: a)
  have hafter := h.countLower_le (capitalSigma :: b.reverse) a []
  rw [countLower_append, countLower_append u before', countLower_cons, countLower_cons u _ _ a after']
  exact Nat.add_lt_add_of_le_of_lt hbefore (Nat.add_lt_add_of_lt_of_le hlt hafter)

end

/-- What follows can only take final sigmas. -/
theorem fewerOf_final (rest : List Nat) : FewerOf 0x3C2 [] rest [] [] := by
  intro b a
  rw [countLower_sigma, countLower_sigma, List.append_nil, List.append_nil]
  cases hlonger : isFinal b (a ++ rest) with
  | false => exact Nat.zero_le _
  | true => exact Nat.le_of_eq (by rw [isFinal_of_append hlonger])

/-- What comes before can only take other sigmas. -/
theorem fewerOf_small (rest : List Nat) : FewerOf 0x3C3 rest [] [] [] := by
  intro b a
  rw [countLower_sigma, countLower_sigma, List.append_nil, List.append_nil]
  cases halone : isFinal b a with
  | false =>
    cases isFinal (b ++ rest) a with
    | false => exact Nat.le_refl _
    | true => exact Nat.zero_le _
  | true => exact Nat.le_of_eq (by rw [isFinal_append halone])

theorem count_lowercase (u : CodeUnit) (t : Text) :
    (lowercase t).count u = countLower u [] t.codePoints [] := by
  unfold lowercase countLower
  rw [lowerBehind_eq]

theorem countLower_letter {u : CodeUnit} (hu : u ≠ 0x61) (before after : List Nat) :
    countLower u before [0x61] after = 0 :=
  List.count_eq_zero.2 fun h => hu (List.mem_singleton.1 h)

theorem firstLetter?_letter : firstLetter? [0x61] = some true := by decide +kernel

section
variable {needle : Text} {before after : List Nat}

/-- A letter behind the text makes one of its final sigmas another one, if it has a sigma with a
cased letter before it and no letter behind it. -/
theorem count_append_letter_lt (h : needle.codePoints = before ++ capitalSigma :: after)
    (hbefore : firstLetter? before.reverse = some true) (hafter : firstLetter? after = none) :
    (lowercase (needle ++ [0x61])).count 0x3C2 < (lowercase needle).count 0x3C2 := by
  have halone : isFinal before.reverse after = true :=
    isFinal_iff.2 ⟨hbefore, by rw [hafter]; exact nofun⟩
  have hlonger : isFinal before.reverse (after ++ [0x61]) = false := by
    rw [← Bool.not_eq_true, isFinal_iff, firstLetter?_append, hafter, firstLetter?_letter]
    exact fun h => h.2 rfl
  rw [count_lowercase, count_lowercase, codePoints_append (.inr rfl), countLower_append,
    show codePoints [0x61] = [0x61] from rfl, countLower_letter (by decide), h]
  refine (fewerOf_final [0x61]).countLower_lt ?_
  rw [countLower_sigma, countLower_sigma, List.append_nil, List.append_nil, halone, hlonger]
  decide

/-- A letter before the text makes one of its other sigmas final, if it has a sigma with no
letter before it and no cased letter next behind it. -/
theorem count_letter_append_lt (h : needle.codePoints = before ++ capitalSigma :: after)
    (hbefore : firstLetter? before.reverse = none) (hafter : firstLetter? after ≠ some true) :
    (lowercase ([0x61] ++ needle)).count 0x3C3 < (lowercase needle).count 0x3C3 := by
  have halone : isFinal before.reverse after = false := by
    rw [← Bool.not_eq_true, isFinal_iff, hbefore]
    exact fun h => nomatch h.1
  have hlonger : isFinal (before.reverse ++ [0x61]) after = true := by
    rw [isFinal_iff, firstLetter?_append, hbefore, firstLetter?_letter]
    exact ⟨rfl, hafter⟩
  rw [count_lowercase, count_lowercase, codePoints_append (.inl rfl), countLower_append,
    show codePoints [0x61] = [0x61] from rfl, countLower_letter (by decide), Nat.zero_add, h]
  refine (fewerOf_small [0x61]).countLower_lt ?_
  rw [countLower_sigma, countLower_sigma, List.append_nil, List.append_nil, halone, hlonger]
  decide

/-- A text with a sigma that is not settled is a part of some text without being found there in
lower case. -/
theorem exists_lowercase_not_infix (h : ¬ SettledSigmas needle.codePoints) :
    ∃ t, needle <:+: t ∧ ¬ lowercase needle <:+: lowercase t := by
  have hfewer {t : Text} {u : CodeUnit} (hlt : (lowercase t).count u < (lowercase needle).count u) :
      ¬ lowercase needle <:+: lowercase t := fun hpart =>
    Nat.not_le.2 hlt (hpart.sublist.count_le u)
  simp only [SettledSigmas, Classical.not_forall] at h
  obtain ⟨before, after, hsplit, hopen⟩ := h
  have hbehind : firstLetter? after ≠ some true := fun h => hopen (.inl h)
  match hbefore : firstLetter? before.reverse with
  | some false => exact absurd (.inr (.inl hbefore)) hopen
  | none =>
    exact ⟨[0x61] ++ needle, (List.suffix_append [0x61] needle).isInfix,
      hfewer (count_letter_append_lt hsplit hbefore hbehind)⟩
  | some true =>
    match hafter : firstLetter? after with
    | some true => exact absurd hafter hbehind
    | some false => exact absurd (.inr (.inr ⟨hbefore, hafter⟩)) hopen
    | none =>
      exact ⟨needle ++ [0x61], List.infix_append [] needle [0x61],
        hfewer (count_append_letter_lt hsplit hbefore hafter)⟩

end

end VirtualChannels.Text
