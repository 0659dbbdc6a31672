import VirtualChannels.Proofs.Reference.Placement

/-
  The occurrences of a formula are told by its pieces (`occurrences_partition`). An occurrence is a
  pair of quotation marks with something between them, or an identifier that is not reserved and
  begins outside the pairs, the numerals and the suffixes (`Piece.IsRun`, `Piece.isRun_iff`), either
  with the longest suffix that follows; and there are no others.
-/

namespace VirtualChannels

open Text (IsLongest IsIdentifier)
open Segment (quotationMark)

namespace Piece

/-- What stands before the suffix. -/
def head : Piece → Text
  | pair name _ => name.quoted
  | numeral t => t
  | named identifier _ => identifier
  | unit u => [u]

/-- The position is in a pair of quotation marks, in a numeral, or in a suffix. -/
inductive Taken (formula : Text) (ps : List Piece) (i : Nat) : Prop
  | pair {opening closing : Nat} (h : (opening, closing) ∈ quotationPairs formula)
      (hopening : opening ≤ i) (hclosing : i ≤ closing)
  | numeral {start : Nat} {t : Text} (h : (start, numeral t) ∈ placed 0 ps) (hstart : start ≤ i)
      (hstop : i < start + t.length)
  | suffix {start : Nat} {p : Piece} (h : (start, p) ∈ placed 0 ps)
      (hstart : start + p.head.length ≤ i) (hstop : i < start + p.text.length)

/-- An identifier of `n` units begins at the position, as long as possible. It begins outside all
pairs, numerals and suffixes, and behind no unit of an identifier that stands outside them. -/
structure IsRun (formula : Text) (ps : List Piece) (i n : Nat) : Prop where
  pos : 0 < n
  longest : IsLongest IsIdentifier n (formula.drop i)
  outside : ¬Taken formula ps i
  before : 0 < i → formula[i - 1]?.any CodeUnit.continuesIdentifier = true →
    Taken formula ps (i - 1)

end Piece

namespace Occurrence

/-- The occurrence is that of two quotation marks: what they enclose is not empty, and is its
name. -/
structure OfPair (formula : Text) (opening closing : Nat) (c : Occurrence) : Prop where
  start_eq : c.start = opening
  encloses : opening + 1 < closing
  name_eq : c.reference.name = (formula.drop (opening + 1)).take (closing - (opening + 1))
  le_stop : closing + 1 ≤ c.stop
  suffix : IsLongest Shift.IsWritten (c.stop - (closing + 1)) (formula.drop (closing + 1))

/-- The occurrence is that of an identifier of `n` units. -/
structure OfRun (o : ScanOptions) (formula : Text) (ps : List Piece) (n : Nat) (c : Occurrence) :
    Prop where
  run : Piece.IsRun formula ps c.start n
  unreserved : Text.lowerAscii ((formula.drop c.start).take n) ∉ o.reserved
  le_stop : c.start + n ≤ c.stop
  suffix : IsLongest Shift.IsWritten (c.stop - (c.start + n)) (formula.drop (c.start + n))

end Occurrence

/-- The occurrences of a formula that is cut into the pieces, by the rules of the scan. -/
structure ScannedByRules (o : ScanOptions) (formula : Text) (ps : List Piece) : Prop where
  fills : ∀ c ∈ occurrences o formula, c.Fills formula
  ordered : (occurrences o formula).Pairwise fun c d => c.stop ≤ d.start
  rule : ∀ c ∈ occurrences o formula,
    (∃ q ∈ quotationPairs formula, c.OfPair formula q.1 q.2) ∨ ∃ n, c.OfRun o formula ps n
  pairs : ∀ q ∈ quotationPairs formula, q.1 + 1 < q.2 →
    ∃ c ∈ occurrences o formula, c.OfPair formula q.1 q.2
  runs : ∀ i n, Piece.IsRun formula ps i n →
    Text.lowerAscii ((formula.drop i).take n) ∉ o.reserved →
    ∃ c ∈ occurrences o formula, c.start = i ∧ c.OfRun o formula ps n

namespace Piece

variable {o : ScanOptions} {formula : Text} {ps : List Piece} {start i : Nat}

theorem length_text_pair (name suffix : Text) :
    (pair name suffix).text.length = name.length + 2 + suffix.length := by
  rw [text, List.length_append, Text.length_quoted]

/-- An identifier is outside all pairs, numerals and suffixes. -/
theorem not_taken_of_named (h : CutInto formula ps) {identifier suffix : Text}
    (hp : (start, named identifier suffix) ∈ placed 0 ps) (hi : start ≤ i)
    (hlt : i < start + identifier.length) : ¬Taken formula ps i := by
  have hin : start ≤ i ∧ i < start + (named identifier suffix).text.length := by
    refine ⟨hi, ?_⟩
    rw [text, List.length_append]
    omega
  intro ht
  cases ht with
  | @pair opening closing hq hopening hclosing =>
    obtain ⟨a, name, s, ha, heq⟩ := (mem_quotationPairs h).1 hq
    cases heq
    have hpair : opening ≤ i ∧ i < opening + (pair name s).text.length := by
      rw [length_text_pair]
      omega
    cases eq_of_mem_placed hp ha hin hpair
  | numeral ha hstart hstop => cases eq_of_mem_placed hp ha hin ⟨hstart, hstop⟩
  | suffix ha hstart hstop =>
    cases eq_of_mem_placed hp ha hin ⟨Nat.le_of_add_right_le hstart, hstop⟩
    exact Nat.not_le_of_lt hlt hstart

/-- What stands outside all pairs, numerals and suffixes is a single unit or in an identifier. -/
theorem exists_of_not_taken (h : CutInto formula ps) (hlt : i < formula.length)
    (ht : ¬Taken formula ps i) :
    (∃ u x, formula.drop i = u :: x ∧ (unit u).Cut x) ∨
    ∃ start identifier suffix, (start, named identifier suffix) ∈ placed 0 ps ∧ start ≤ i ∧
      i < start + identifier.length := by
  obtain ⟨⟨a, p⟩, hp, hle, hin⟩ := exists_mem_placed h (Nat.zero_le i) (by rwa [Nat.zero_add])
  dsimp only at hle hin
  have hhead : i < a + p.head.length := by
    by_contra hge
    exact ht (.suffix hp (Nat.le_of_not_lt hge) hin)
  cases p with
  | pair name suffix =>
    refine absurd (Taken.pair ((mem_quotationPairs h).2 ⟨a, name, suffix, hp, rfl⟩) hle ?_) ht
    rw [head, Text.length_quoted] at hhead
    exact Nat.le_of_lt_succ hhead
  | numeral t => exact absurd (.numeral hp hle hhead) ht
  | unit u =>
    obtain rfl : a = i := Nat.le_antisymm hle (Nat.le_of_lt_succ hhead)
    obtain ⟨x, hdrop, hcut⟩ := drop_of_mem_placed h List.drop_zero hp
    exact Or.inl ⟨u, x, hdrop, hcut⟩
  | named identifier suffix => exact Or.inr ⟨a, identifier, suffix, hp, hle, hhead⟩

theorem drop_of_mem_named (h : CutInto formula ps) {identifier suffix : Text}
    (hp : (start, named identifier suffix) ∈ placed 0 ps) :
    ∃ x, formula.drop start = identifier ++ (suffix ++ x) ∧ identifier ≠ [] ∧
      IsLongest IsIdentifier identifier.length (identifier ++ (suffix ++ x)) ∧
      IsLongest Shift.IsWritten suffix.length (suffix ++ x) := by
  obtain ⟨x, hdrop, hcut⟩ := drop_of_mem_placed h List.drop_zero hp
  rw [text, List.append_assoc] at hdrop
  cases hcut with
  | named hne hi hs => exact ⟨x, hdrop, hne, hi, hs⟩

/-- Where an identifier begins, the unit before continues none, or is in a pair, a numeral or a
suffix. -/
theorem taken_before_named (h : CutInto formula ps) {identifier suffix : Text}
    (hp : (i + 1, named identifier suffix) ∈ placed 0 ps)
    (hu : formula[i]?.any CodeUnit.continuesIdentifier = true) : Taken formula ps i := by
  obtain ⟨x, hdrop, hne, hi, -⟩ := drop_of_mem_named h hp
  obtain ⟨⟨v, rest, hv, hstart, -⟩, -⟩ := hi.stops hne
  have hlt : i < formula.length := by
    by_contra hge
    rw [List.getElem?_eq_none (Nat.le_of_not_lt hge)] at hu
    cases hu
  by_contra ht
  rcases exists_of_not_taken h hlt ht with ⟨u, y, hunit, hcut⟩ | ⟨a, id', s', ha, hle, hin⟩
  · have hget : formula[i]? = some u := by
      rw [← List.head?_drop, hunit]
      rfl
    rw [hget] at hu
    exact absurd (hu.symm.trans hcut.continues_unit) (by decide)
  · obtain ⟨y, hdrop', hne', hi', -⟩ := drop_of_mem_named h ha
    -- The identifier before ends where the other begins, which would continue it.
    have hend : a + (id' ++ s').length = i + 1 := by
      rw [List.length_append]
      by_contra hother
      have hin' : a ≤ i + 1 ∧ i + 1 < a + (named id' s').text.length := by
        rw [text, List.length_append]
        omega
      have hpos := List.length_pos_iff.2 hne
      have hin'' : i + 1 ≤ i + 1 ∧ i + 1 < i + 1 + (named identifier suffix).text.length := by
        rw [text, List.length_append]
        omega
      cases eq_of_mem_placed ha hp hin' hin''
      exact Nat.not_succ_le_self i hle
    obtain rfl : s' = [] := by
      rw [List.length_append] at hend
      exact List.eq_nil_of_length_eq_zero (by omega)
    have hy : y = v :: (rest ++ (suffix ++ x)) := by
      rw [← List.cons_append, ← hv, ← hdrop, ← hend, ← List.drop_drop, hdrop', List.append_nil,
        List.nil_append, List.drop_left]
    have hstop := (hi'.stops hne').2 v (by rw [hy]; rfl)
    rw [CodeUnit.startsIdentifier.continues hstart] at hstop
    cases hstop

/-- The identifiers outside all pairs, numerals and suffixes are those of the pieces. -/
theorem isRun_iff (h : CutInto formula ps) {n : Nat} : IsRun formula ps i n ↔
    ∃ identifier suffix, (i, named identifier suffix) ∈ placed 0 ps ∧ n = identifier.length := by
  constructor
  · intro hr
    have hlt : i < formula.length := by
      have hle := hr.longest.le
      have hpos := hr.pos
      rw [List.length_drop] at hle
      omega
    have hid := hr.longest.holds (Nat.ne_of_gt hr.pos)
    rcases exists_of_not_taken h hlt hr.outside with ⟨u, x, hunit, hcut⟩ |
      ⟨a, identifier, suffix, ha, hle, hin⟩
    · have hu : u ∈ (formula.drop i).take n := by
        rw [hunit, List.take_cons hr.pos]
        exact List.mem_cons_self
      exact absurd ((hid.continues hu).symm.trans hcut.continues_unit) (by decide)
    · obtain ⟨x, hdrop, hne, hi, -⟩ := drop_of_mem_named h ha
      rcases Nat.eq_or_lt_of_le hle with rfl | hlt
      · exact ⟨identifier, suffix, ha, (hdrop ▸ hr.longest).unique hi⟩
      · -- The unit before is one of the identifier.
        obtain ⟨k, rfl⟩ : ∃ k, i = a + k + 1 := ⟨i - a - 1, by omega⟩
        have hk : k < identifier.length := by omega
        have hunit : formula[a + k]? = some identifier[k] := by
          rw [← List.getElem?_drop, hdrop, List.getElem?_append_left hk,
            List.getElem?_eq_getElem hk]
        refine absurd (hr.before (Nat.succ_pos _) ?_)
          (not_taken_of_named h ha (Nat.le_add_right a k) (Nat.add_lt_add_left hk a))
        rw [Nat.add_sub_cancel, hunit]
        exact (hi.stops hne).1.continues (List.getElem_mem hk)
  · rintro ⟨identifier, suffix, hp, rfl⟩
    obtain ⟨x, hdrop, hne, hi, -⟩ := drop_of_mem_named h hp
    have hpos := List.length_pos_iff.2 hne
    refine ⟨hpos, hdrop ▸ hi, ?_, fun hstart hu => ?_⟩
    · exact not_taken_of_named h hp (Nat.le_refl _) (Nat.lt_add_of_pos_right hpos)
    · obtain ⟨k, rfl⟩ := Nat.exists_eq_add_one_of_ne_zero (Nat.ne_of_gt hstart)
      exact taken_before_named h hp hu

/-! ## Pieces that are references -/

/-- A pair with something between the marks is an occurrence of its own. -/
theorem ofPair_of_mem (h : CutInto formula ps) {name suffix : Text} {r : Reference}
    (hp : (start, pair name suffix) ∈ placed 0 ps)
    (hr : (pair name suffix).segment o = .reference r) :
    Occurrence.OfPair formula start (start + name.length + 1)
      ⟨r, start, start + (pair name suffix).text.length⟩ := by
  obtain ⟨x, hdrop, hcut⟩ := drop_of_mem_placed h List.drop_zero hp
  cases hcut with
  | emptyPair => cases hr
  | pair hne hname hs =>
    rw [segment, if_neg hne] at hr
    cases hr
    have hinner : formula.drop (start + 1) = name ++ ([quotationMark] ++ suffix ++ x) := by
      rw [← List.drop_drop, hdrop, text, Text.quoted, List.cons_append, List.cons_append,
        List.drop_succ_cons, List.drop_zero, List.append_assoc, List.append_assoc, List.append_assoc]
      rfl
    have hrest : formula.drop (start + name.length + 1 + 1) = suffix ++ x := by
      rw [Nat.add_assoc, Nat.add_assoc, ← Text.length_quoted, ← List.drop_drop, hdrop, text,
        List.append_assoc, List.drop_left]
    have hpos := List.length_pos_iff.2 hne
    refine ⟨rfl, by omega, ?_, ?_, ?_⟩
    · rw [hinner, Nat.add_right_comm, Nat.add_sub_cancel_left, List.take_left]
    · dsimp only
      rw [length_text_pair]
      omega
    · dsimp only
      rw [length_text_pair, hrest]
      rwa [show start + (name.length + 2 + suffix.length) - (start + name.length + 1 + 1) =
        suffix.length by omega]

/-- An identifier that is a reference is not reserved. -/
theorem ofRun_of_mem (h : CutInto formula ps) {identifier suffix : Text} {r : Reference}
    (hp : (start, named identifier suffix) ∈ placed 0 ps)
    (hr : (named identifier suffix).segment o = .reference r) :
    Occurrence.OfRun o formula ps identifier.length
      ⟨r, start, start + (named identifier suffix).text.length⟩ := by
  obtain ⟨x, hdrop, hne, hi, hs⟩ := drop_of_mem_named h hp
  have hunreserved : ¬o.isReserved identifier = true := by
    intro hreserved
    rw [segment, Segment.named, if_pos hreserved] at hr
    cases hr
  refine ⟨(isRun_iff h).2 ⟨identifier, suffix, hp, rfl⟩, ?_, ?_, ?_⟩
  · dsimp only
    rw [hdrop, List.take_left]
    exact fun hm => hunreserved (List.contains_iff_mem.2 hm)
  · dsimp only
    rw [text, List.length_append]
    exact Nat.add_le_add_left (Nat.le_add_right _ _) start
  · dsimp only
    rw [← List.drop_drop, hdrop, List.drop_left, text, List.length_append, ← Nat.add_assoc,
      Nat.add_sub_cancel_left]
    exact hs

theorem exists_segment_named {identifier : Text} (hu : identifier.lowerAscii ∉ o.reserved)
    (suffix : Text) : ∃ r, (named identifier suffix).segment o = .reference r := by
  have hunreserved : ¬o.isReserved identifier = true := fun h => hu (List.contains_iff_mem.1 h)
  rw [segment, Segment.named, if_neg hunreserved]
  split
  · exact ⟨_, rfl⟩
  · exact ⟨_, rfl⟩

/-- Every occurrence is that of a pair or of an identifier. -/
theorem rule_of_mem {c : Occurrence} (h : CutInto formula ps) (hc : c ∈ occurrences o formula) :
    (∃ q ∈ quotationPairs formula, c.OfPair formula q.1 q.2) ∨ ∃ n, c.OfRun o formula ps n := by
  obtain ⟨start, p, r, hp, hr, rfl⟩ := (mem_occurrences h).1 hc
  cases p with
  | pair name suffix =>
    exact Or.inl ⟨_, (mem_quotationPairs h).2 ⟨start, name, suffix, hp, rfl⟩, ofPair_of_mem h hp hr⟩
  | numeral | unit => cases hr
  | named identifier suffix => exact Or.inr ⟨identifier.length, ofRun_of_mem h hp hr⟩

theorem exists_ofPair (h : CutInto formula ps) {q : Nat × Nat} (hq : q ∈ quotationPairs formula)
    (hlt : q.1 + 1 < q.2) : ∃ c ∈ occurrences o formula, c.OfPair formula q.1 q.2 := by
  obtain ⟨start, name, suffix, hp, rfl⟩ := (mem_quotationPairs h).1 hq
  have hne : name ≠ [] := by
    rintro rfl
    exact Nat.lt_irrefl _ hlt
  have hr : (pair name suffix).segment o = .reference _ := if_neg hne
  exact ⟨_, (mem_occurrences h).2 ⟨start, _, _, hp, hr, rfl⟩, ofPair_of_mem h hp hr⟩

theorem exists_ofRun (h : CutInto formula ps) {n : Nat} (hr : IsRun formula ps i n)
    (hu : Text.lowerAscii ((formula.drop i).take n) ∉ o.reserved) :
    ∃ c ∈ occurrences o formula, c.start = i ∧ c.OfRun o formula ps n := by
  obtain ⟨identifier, suffix, hp, rfl⟩ := (isRun_iff h).1 hr
  obtain ⟨x, hdrop, -⟩ := drop_of_mem_named h hp
  rw [hdrop, List.take_left] at hu
  obtain ⟨r, hr⟩ := exists_segment_named hu suffix
  exact ⟨_, (mem_occurrences h).2 ⟨i, _, r, hp, hr, rfl⟩, rfl, ofRun_of_mem h hp hr⟩

end Piece

/-- Every formula is cut into pieces in one way, and its occurrences are those that the rules of the
scan give: all of them, and no others. -/
theorem occurrences_partition (o : ScanOptions) (formula : Text) :
    ∃ ps, (∀ qs, CutInto formula qs ↔ qs = ps) ∧ ScannedByRules o formula ps := by
  obtain ⟨ps, hps⟩ := exists_cutInto formula
  refine ⟨ps, fun qs => ⟨fun hqs => hqs.unique hps, fun heq => heq ▸ hps⟩, ?_⟩
  exact {
    fills := fun c hc => fills_of_mem hc
    ordered := pairwise_occurrences o formula
    rule := fun c hc => Piece.rule_of_mem hps hc
    pairs := fun q hq hlt => Piece.exists_ofPair hps hq hlt
    runs := fun i n hr hu => Piece.exists_ofRun hps hr hu }

end VirtualChannels
