import VirtualChannels.Proofs.Reference.Matched

/-
  A formula in which references are replaced by identifiers. What is no reference keeps its
  tokens, whatever becomes of the references behind it (`Scanned.lexes`), because a formula begins
  as it does with identifiers, up to an underscore (`replaced_onset`). Two neighbours touch if
  they become one identifier; else none goes on from the one into the other
  (`head_of_not_touches`).
-/

namespace VirtualChannels

/-! ## Segments that are no references -/

/-- The second text begins as the first one does, up to its end or to an underscore. -/
def Text.Follows (x y : Text) : Prop :=
  ∃ c a b, x = c ++ a ∧ y = c ++ b ∧ ∀ u ∈ b.head?, u = Text.underscore

theorem Text.SharesOnset.follows {x y : Text} (h : SharesOnset x y) : Follows x y := by
  obtain ⟨c, a, b, rfl, rfl, hb⟩ := h
  refine ⟨c, a, b, rfl, rfl, fun u hu => ?_⟩
  rcases hb with ⟨-, rfl⟩ | hb
  · cases hu
  · rw [hb] at hu
    exact (Option.some.inj hu).symm

theorem Text.follows_append (c a : Text) : Follows (c ++ a) c :=
  ⟨c, a, [], rfl, (List.append_nil c).symm, fun _ h => nomatch h⟩

theorem Text.follows_nil (x : Text) : Follows x [] := follows_append [] x

namespace Formula

theorem isPart_underscore : Numeral.isPart Text.underscore = false := by decide

/-- A unit that begins no name and no numeral is lexed alike in front of any text. -/
theorem Lexes.of_unit {u : CodeUnit} (hd : u.isDigit = false) (hp : u ≠ Decimal.point)
    (hi : u.startsIdentifier = false) :
    ∃ ls, (∀ y, Lexes [u] y ls) ∧ ∀ n, .identifier n ∉ ls.getD [] := by
  cases hb : u.isBlank with
  | true => exact ⟨_, fun y => .of_isBlank hb y, fun n => List.not_mem_nil⟩
  | false =>
    cases hs : Symbol.ofUnit? u with
    | some s =>
      obtain rfl := Symbol.unit_of_ofUnit? hs
      refine ⟨_, fun y => .of_written (.symbol s y), fun n hn => ?_⟩
      cases List.mem_singleton.1 hn
    | none =>
      refine ⟨none, fun y => .unexpected hb ?_, fun n => List.not_mem_nil⟩
      exact Lexeme.first?_eq_none hs (Numeral.length_eq_zero hd hp _) hi

/-- A unit that neither separates tokens nor begins one. -/
theorem Lexes.stray {u : CodeUnit} (hb : u.isBlank = false) (hs : Symbol.ofUnit? u = none)
    (hd : u.isDigit = false) (hp : u ≠ Decimal.point) (hi : u.startsIdentifier = false)
    (p y : Text) : Lexes (u :: p) y none :=
  .unexpected hb (Lexeme.first?_eq_none hs (Numeral.length_eq_zero hd hp _) hi)

/-- No token begins where a suffix does. -/
theorem Lexes.suffix_head {u : CodeUnit} (hu : u = Shift.openBracket ∨ u = Shift.atSign)
    (p y : Text) : Lexes (u :: p) y none := by
  rcases hu with rfl | rfl
  · exact .stray (by decide) (by decide) (by decide) (by decide) (by decide) _ _
  · exact .stray (by decide) (by decide) (by decide) (by decide) (by decide) _ _

end Formula

namespace Segment

open Formula

theorem named_eq_plain {o : ScanOptions} {identifier tail p : Text}
    (h : Segment.named o identifier tail = .plain p) :
    o.isReserved identifier = true ∧ p = identifier ++ tail.take (Shift.suffix tail).length := by
  unfold Segment.named at h
  dsimp only at h
  split at h
  · rename_i hr
    cases h
    exact ⟨hr, rfl⟩
  · split at h
    · cases h
    · cases h

/-- A name with a suffix is no identifier. -/
theorem suffix_length_of_isIdentifier {identifier tail : Text}
    (htail : ∀ u ∈ tail.head?, u.continuesIdentifier = false)
    (h : (identifier ++ tail.take (Shift.suffix tail).length).IsIdentifier) :
    (Shift.suffix tail).length = 0 := by
  rcases Shift.suffix_empty_or_head tail with hn | ⟨u, rest, n, rfl, -, hn⟩
  · exact hn
  · rw [hn] at h
    have hu := h.continues (List.mem_append_right identifier List.mem_cons_self)
    rw [htail u rfl] at hu
    cases hu

/-- A name that stands for no channel is followed by nothing that would continue it. -/
theorem Scanned.head_of_isIdentifier {o : ScanOptions} {s : Segment} {x p : Text}
    (h : Scanned o s x) (hs : s = .plain p) (hp : p.IsIdentifier) :
    ∀ u ∈ x.head?, u.continuesIdentifier = false := by
  cases h with
  | mark | emptyPair | point =>
    cases hs
    obtain ⟨u, rest, e, hu, -⟩ := hp
    cases e
    exact absurd hu (by decide)
  | quoted => cases hs
  | @numeral p x hne hn =>
    cases hs
    obtain ⟨u, rest, rfl, hu, -⟩ := hp
    rcases Numeral.head_of_length_append hn with hd | rfl
    · rw [CodeUnit.isDigit_eq_false hu] at hd
      cases hd
    · exact absurd hu (by decide)
  | @named identifier tail hi htail =>
    obtain ⟨-, rfl⟩ := named_eq_plain hs
    rw [suffix_length_of_isIdentifier htail hp, List.drop_zero]
    exact htail
  | unit x hq hd hpoint hi =>
    cases hs
    obtain ⟨u, rest, e, hu, -⟩ := hp
    cases e
    rw [hi] at hu
    cases hu

/-- What a segment that is no reference is lexed as; its only names are reserved. -/
theorem Scanned.exists_lexemes {o : ScanOptions} {s : Segment} {x p : Text} (h : Scanned o s x)
    (hs : s = .plain p) :
    ∃ ls, (∀ y, Text.Follows x y →
        (p.IsIdentifier → ∀ u ∈ y.head?, u.continuesIdentifier = false) → Lexes p y ls) ∧
      ∀ n, .identifier n ∈ ls.getD [] → o.isReserved n = true := by
  have hstray : ∀ n, Lexeme.identifier n ∈ (none : Option (List Lexeme)).getD [] →
      o.isReserved n = true := fun n hn => nomatch hn
  cases h with
  | mark hx =>
    cases hs
    exact ⟨none, fun y _ _ =>
      .stray (by decide) (by decide) (by decide) (by decide) (by decide) _ _, hstray⟩
  | emptyPair =>
    cases hs
    exact ⟨none, fun y _ _ =>
      .stray (by decide) (by decide) (by decide) (by decide) (by decide) _ _, hstray⟩
  | quoted => cases hs
  | @numeral p x hne hn =>
    cases hs
    refine ⟨_, fun y hy _ => .of_written (.number hne ?_), fun n hn => ?_⟩
    · obtain ⟨c, a, b, rfl, rfl, hb⟩ := hy
      exact Numeral.length_eq_of_stop hne hn fun u hu => hb u hu ▸ isPart_underscore
    · cases List.mem_singleton.1 hn
  | @point x hx =>
    cases hs
    refine ⟨none, fun y hy _ => .unexpected (by decide) ?_, hstray⟩
    obtain ⟨c, a, b, rfl, rfl, hb⟩ := hy
    refine Lexeme.first?_eq_none (by decide) (Nat.le_zero.1 ?_) (by decide)
    rw [← hx]
    exact Numeral.length_le_of_stop (s := Decimal.point :: c)
      (fun u hu => hb u hu ▸ isPart_underscore) a
  | @named identifier tail hi htail =>
    obtain ⟨hr, rfl⟩ := named_eq_plain hs
    rcases Shift.suffix_empty_or_head tail with hn | ⟨u, rest, n, rfl, hu, hn⟩
    · rw [hn, List.take_zero, List.append_nil]
      refine ⟨_, fun y _ hp => .of_written (.identifier hi (hp hi)), fun n hm => ?_⟩
      cases List.mem_singleton.1 hm
      exact hr
    · rw [hn]
      refine ⟨none, fun y _ _ => ?_, hstray⟩
      refine Lexes.append (Lexes.of_written (.identifier hi ?_)) (.suffix_head hu _ _)
      intro v hv
      exact htail v hv
  | @unit u x hq hd hpoint hi =>
    cases hs
    obtain ⟨ls, hls, hname⟩ := Lexes.of_unit hd hpoint hi
    exact ⟨ls, fun y _ _ => hls y, fun n hn => absurd hn (hname n)⟩

/-- A segment that is no reference is lexed apart from what follows, also where references behind
it have become identifiers, if it is not a name that these go on with. -/
theorem Scanned.lexes {o : ScanOptions} {s : Segment} {x p : Text} (h : Scanned o s x)
    (hs : s = .plain p) {y : Text} (hy : Text.Follows x y)
    (hp : p.IsIdentifier → ∀ u ∈ y.head?, u.continuesIdentifier = false) :
    Lexes p y (lexemes? p) := by
  obtain ⟨ls, hls, -⟩ := h.exists_lexemes hs
  rw [(hls [] (Text.follows_nil x) fun _ _ hu => nomatch hu).lexemes?_eq]
  exact hls y hy hp

/-- The names that are no references are reserved. -/
theorem Scanned.isReserved {o : ScanOptions} {s : Segment} {x p : Text} (h : Scanned o s x)
    (hs : s = .plain p) {n : Text} (hn : .identifier n ∈ (lexemes? p).getD []) :
    o.isReserved n = true := by
  obtain ⟨ls, hls, hreserved⟩ := h.exists_lexemes hs
  rw [(hls [] (Text.follows_nil x) fun _ _ hu => nomatch hu).lexemes?_eq] at hn
  exact hreserved n hn

end Segment

/-! ## Identifiers in the place of references -/

/-- Every reference among the segments has an identifier that begins as its matched text. -/
def Segment.Named (identifiers : Assignment Text) (ss : List Segment) : Prop :=
  ∀ r, .reference r ∈ ss → ∃ identifier, identifiers.get? r.matched = some identifier ∧
    identifier.IsIdentifier ∧ Text.SharesOnset r.matched identifier

/-- Every reference of a formula has an identifier. -/
theorem exists_identifier {o : ScanOptions} {formula : Text} :
    ∀ r ∈ references o formula,
      ∃ identifier, (substitute o formula).identifiers.get? r.matched = some identifier :=
  fun _ hr => Identifier.exists_get?_assign (List.mem_map.2 ⟨_, hr, rfl⟩)

theorem substitute_named (o : ScanOptions) (formula : Text) :
    Segment.Named (substitute o formula).identifiers (segments o formula) := by
  intro r hr
  obtain ⟨identifier, hi⟩ := exists_identifier r (mem_references.2 hr)
  obtain ⟨used, hfresh⟩ := Identifier.assign_fresh _ _ (Assignment.mem_of_get?_eq_some hi)
  obtain ⟨u, rest, hu, hd⟩ := head_matched_of_mem_references (mem_references.2 hr)
  have hfresh : identifier = Identifier.fresh used r.matched.toIdentifier := hfresh
  refine ⟨identifier, hi, ?_, ?_⟩
  · rw [hfresh]
    exact Identifier.isIdentifier_fresh used _
  · rw [hfresh, hu]
    exact Identifier.fresh_onset rest used hd

namespace Segment

variable {identifiers : Assignment Text} {o : ScanOptions}

theorem Named.tail {s : Segment} {ss : List Segment} (h : Named identifiers (s :: ss)) :
    Named identifiers ss :=
  fun r hr => h r (List.mem_cons_of_mem s hr)

theorem Named.replaced {r : Reference} {ss : List Segment} (h : Named identifiers ss)
    (hr : .reference r ∈ ss) : (Segment.replaced identifiers (.reference r)).IsIdentifier ∧
      Text.SharesOnset r.matched (Segment.replaced identifiers (.reference r)) := by
  obtain ⟨identifier, hi, hid, honset⟩ := h r hr
  rw [Segment.replaced, hi, Option.getD_some]
  exact ⟨hid, honset⟩

/-- A text begins as it does when its references are replaced. -/
theorem replaced_onset (t : Text) (h : Named identifiers (segments o t)) :
    Text.SharesOnset t ((segments o t).flatMap (Segment.replaced identifiers)) := by
  revert h
  refine segments_induction (o := o) (motive := fun t ss => Named identifiers ss →
    Text.SharesOnset t (ss.flatMap (Segment.replaced identifiers))) (fun _ => .refl []) ?_ t
  intro s x _ ih h
  rw [List.flatMap_cons]
  refine Text.SharesOnset.append ?_ (ih h.tail)
  cases s with
  | plain p => exact .refl p
  | reference r => exact (h.replaced List.mem_cons_self).2

/-! ## Segments that touch -/

def isReference : Segment → Bool
  | plain _ => false
  | reference _ => true

/-- Whether an identifier ends with the segment once references are replaced. -/
def endsInName : Segment → Bool
  | plain p => p.head?.any CodeUnit.startsIdentifier && p.all CodeUnit.continuesIdentifier
  | reference _ => true

/-- Whether an identifier goes on with the segment once references are replaced. -/
def continuesName : Segment → Bool
  | plain p => p.head?.any CodeUnit.continuesIdentifier
  | reference _ => true

/-- Whether two neighbours of which one is a reference become one identifier. -/
def touches (s s' : Segment) : Bool :=
  (s.isReference || s'.isReference) && s.endsInName && s'.continuesName

/-- No reference touches a neighbour. -/
def Untouched (ss : List Segment) : Prop := ss.IsChain fun s s' => s.touches s' = false

instance (ss : List Segment) : Decidable (Untouched ss) :=
  inferInstanceAs (Decidable (ss.IsChain fun s s' => s.touches s' = false))

theorem endsInName_plain {p : Text} : (plain p).endsInName = true ↔ p.IsIdentifier := by
  cases p with
  | nil => exact iff_of_false (fun h => nomatch h) fun h => h.ne_nil rfl
  | cons u rest =>
    simp only [endsInName, List.head?_cons, Option.any_some, List.all_cons, Bool.and_eq_true,
      List.all_eq_true]
    constructor
    · rintro ⟨hu, -, hrest⟩
      exact ⟨u, rest, rfl, hu, hrest⟩
    · rintro ⟨v, more, e, hv, hmore⟩
      cases e
      exact ⟨hv, CodeUnit.startsIdentifier.continues hv, hmore⟩

/-- A segment goes on with an identifier if its first unit does. -/
theorem head_replaced {s : Segment} {x : Text} (h : Scanned o s x) {ss : List Segment}
    (hn : Named identifiers (s :: ss)) : ∃ u rest,
      Segment.replaced identifiers s = u :: rest ∧ u.continuesIdentifier = s.continuesName := by
  cases s with
  | plain p =>
    obtain ⟨u, rest, e⟩ := List.exists_cons_of_ne_nil h.text_ne_nil
    have e : p = u :: rest := e
    rw [e]
    exact ⟨u, rest, rfl, rfl⟩
  | reference r =>
    obtain ⟨u, rest, e, hu, -⟩ := (hn.replaced List.mem_cons_self).1
    exact ⟨u, rest, e, CodeUnit.startsIdentifier.continues hu⟩

/-- Between a segment and what follows no identifier goes on, unless they touch. -/
theorem head_of_not_touches {s : Segment} {x : Text} (h : Scanned o s x)
    (hn : Named identifiers (s :: segments o x))
    (hfree : ∀ s' ∈ (segments o x).head?, s.touches s' = false) (hends : s.endsInName = true) :
    ∀ u ∈ ((segments o x).flatMap (Segment.replaced identifiers)).head?,
      u.continuesIdentifier = false := by
  rcases segments_cases o x with ⟨rfl, e⟩ | ⟨s', x', h', rfl, e⟩
  · rw [e]
    intro u hu
    cases hu
  · rw [e] at hn hfree ⊢
    have hs' := hfree s' rfl
    intro u hu
    rw [List.flatMap_cons] at hu
    have hnot : s'.continuesName = false := by
      cases s with
      | reference r => simpa [touches, isReference, hends] using hs'
      | plain p =>
        cases s' with
        | reference r => simpa [touches, isReference, hends] using hs'
        | plain p' =>
          have hstop := h.head_of_isIdentifier rfl (endsInName_plain.1 hends)
          obtain ⟨v, rest, e⟩ := List.exists_cons_of_ne_nil h'.text_ne_nil
          have e : p' = v :: rest := e
          rw [e]
          exact hstop v (by rw [e]; rfl)
    obtain ⟨v, rest, e, hv⟩ := head_replaced h' hn.tail
    rw [e] at hu
    cases hu
    rw [hv, hnot]

end Segment

end VirtualChannels
