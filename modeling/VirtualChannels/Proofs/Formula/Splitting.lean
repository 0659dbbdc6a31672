import VirtualChannels.Formula.Parser
import VirtualChannels.Proofs.Formula.Written
import VirtualChannels.Proofs.Number.Order
import VirtualChannels.Proofs.Reference.Separated

/-
  Every text is lexemes with blanks between them, as far as they go. Each lexeme is the longest that
  begins where it stands (`isLongest_of_first?`), the tokens are these lexemes at their positions
  (`Split.tokenize_eq`), and where the tokenizer stops neither a blank nor a lexeme begins. No
  lexeme contains a blank, so in front of any blank it is read alike, and other blanks between the
  same lexemes give the same tokens (`tokenize_splits`).
-/

namespace VirtualChannels

open Text (IsLongest IsIdentifier Unbroken)
open Numeral (IsNumeral)

/-- What is longest stays longest where less follows. -/
theorem Text.IsLongest.of_append {P : Text → Prop} {w x y : Text}
    (h : IsLongest P w.length (w ++ (x ++ y))) : IsLongest P w.length (w ++ x) := by
  have hprefix : w ++ x <+: w ++ (x ++ y) :=
    (List.prefix_append_right_inj w).2 (List.prefix_append x y)
  refine ⟨?_, fun hne => ?_, fun p hp hpre => h.longest p hp (hpre.trans hprefix)⟩
  · rw [List.length_append]
    exact Nat.le_add_right _ _
  · have hholds := h.holds hne
    rwa [List.take_left] at hholds ⊢

theorem Numeral.IsNumeral.ne_nil {p : Text} (h : IsNumeral p) : p ≠ [] := by
  cases h with
  | plain hm => exact hm.ne_nil
  | scaled hm => exact List.append_ne_nil_of_left_ne_nil hm.ne_nil _

/-- A decimal is read as a double that is a number, if an infinite one. -/
theorem Decimal.isNaN_toFloat (d : Decimal) : d.toFloat.isNaN = false := by
  rw [toFloat_eq]
  exact Number.isNaN_eq_false (Number.isNumber_withSign _ d.magnitude_le)

namespace Formula

/-! ## How lexemes are spelled -/

/-- A symbol is spelled by its unit, a number by a numeral, and an identifier by itself. -/
inductive Lexeme.Spelling : Lexeme → Text → Prop
  | symbol (s : Symbol) : Spelling (.symbol s) [s.unit]
  | number {w : Text} (hw : IsNumeral w) : Spelling (.number (Decimal.read w).toFloat) w
  | identifier {n : Text} (hn : n.IsIdentifier) : Spelling (.identifier n) n

/-- The text spells some lexeme. -/
def IsSpelling (w : Text) : Prop := ∃ l, Lexeme.Spelling l w

section
variable {l : Lexeme} {w x p rest : Text} {u : CodeUnit} {more : Nat}

theorem Lexeme.Spelling.ne_nil (h : l.Spelling w) : w ≠ [] := by
  cases h with
  | symbol s => exact List.cons_ne_nil _ _
  | number hw => exact hw.ne_nil
  | identifier hn => exact hn.ne_nil

/-- No lexeme contains a blank. -/
theorem unbroken_isSpelling : Unbroken IsSpelling := by
  rintro w ⟨l, h⟩ u hu
  cases h with
  | symbol s =>
    rw [List.mem_singleton.1 hu]
    exact Symbol.isBlank_unit s
  | number hw => exact Numeral.unbroken w hw u hu
  | identifier hn => exact Text.unbroken_isIdentifier w hn u hu

theorem Lexeme.spelling_of_written (h : l.Written w x) : l.Spelling w := by
  cases h with
  | symbol s => exact .symbol s
  | number hne hw =>
    have hnumeral := Numeral.isNumeral_take_length (t := w ++ x)
      (by rw [hw]; exact fun hz => hne (List.eq_nil_of_length_eq_zero hz))
    rw [hw, List.take_left] at hnumeral
    exact .number hnumeral
  | identifier hn => exact .identifier hn

/-- The longest spelling at the start of a text is written there. -/
theorem Lexeme.Spelling.written (h : l.Spelling w) (hw : IsLongest IsSpelling w.length (w ++ x)) :
    l.Written w x := by
  have hle : w.length ≤ (w ++ x).length := hw.le
  cases h with
  | symbol s => exact .symbol s x
  | number hn =>
    have hlongest : IsLongest IsNumeral w.length (w ++ x) :=
      ⟨hle, fun _ => by rwa [List.take_left], fun p hp hpre => hw.longest p ⟨_, .number hp⟩ hpre⟩
    exact .number hn.ne_nil ((Numeral.isLongest_length _).unique hlongest)
  | identifier hn =>
    have hlongest : IsLongest IsIdentifier w.length (w ++ x) :=
      ⟨hle, fun _ => by rwa [List.take_left],
        fun p hp hpre => hw.longest p ⟨_, .identifier hp⟩ hpre⟩
    exact .identifier hn (hlongest.stops hn.ne_nil).2

/-- Where a spelling begins, a token begins that is at least as long. -/
theorem Lexeme.Spelling.exists_first? (h : l.Spelling p) (hp : p <+: u :: rest) :
    ∃ l' more, Lexeme.first? u rest = some (l', more) ∧ p.length ≤ more + 1 := by
  cases h with
  | symbol s =>
    obtain ⟨rfl, -⟩ := List.cons_prefix_cons.1 hp
    exact ⟨_, _, Lexeme.first?_symbol (Symbol.ofUnit?_unit s) rest, Nat.le_refl _⟩
  | number hw =>
    have hle := Numeral.length_le_of_isNumeral hw hp
    have hpos := List.length_pos_iff.2 hw.ne_nil
    exact ⟨_, _, Lexeme.first?_number (Nat.ne_of_gt (Nat.lt_of_lt_of_le hpos hle)), by omega⟩
  | identifier hn =>
    obtain ⟨v, more, rfl, hv, hmore⟩ := id hn
    obtain ⟨rfl, hpre⟩ := List.cons_prefix_cons.1 hp
    refine ⟨_, _, Lexeme.first?_identifier hv rest, ?_⟩
    have hid : IsIdentifier (v :: rest.takeWhile CodeUnit.continuesIdentifier) :=
      ⟨v, _, rfl, hv, fun _ hu => List.mem_takeWhile_imp hu⟩
    have hlongest := hid.isLongest (x := rest.dropWhile CodeUnit.continuesIdentifier)
      fun _ hu => Text.head_dropWhile hu
    rw [List.cons_append, List.takeWhile_append_dropWhile] at hlongest
    exact hlongest.longest _ hn hp

/-- The first token is the longest lexeme that the text begins with. -/
theorem isLongest_of_first? (h : Lexeme.first? u rest = some (l, more)) :
    l.Spelling (u :: rest.take more) ∧
      IsLongest IsSpelling (u :: rest.take more).length (u :: rest) := by
  have hspelling := Lexeme.spelling_of_written (Lexeme.written_of_first? h)
  have hlength : (u :: rest.take more).length = more + 1 := by
    rw [List.length_cons, List.length_take, Nat.min_eq_left (Lexeme.first?_length h)]
  refine ⟨hspelling, ?_⟩
  rw [hlength]
  refine ⟨?_, fun _ => ?_, ?_⟩
  · rw [List.length_cons]
    exact Nat.succ_le_succ (Lexeme.first?_length h)
  · rw [List.take_succ_cons]
    exact ⟨l, hspelling⟩
  · rintro p ⟨l', hp⟩ hpre
    obtain ⟨l'', more', hfirst, hle⟩ := hp.exists_first? hpre
    rw [h] at hfirst
    cases hfirst
    exact hle

/-- Where no token begins, no lexeme does. -/
theorem isLongest_of_first?_eq_none (h : Lexeme.first? u rest = none) :
    IsLongest IsSpelling 0 (u :: rest) := by
  refine ⟨Nat.zero_le _, fun hne => absurd rfl hne, ?_⟩
  rintro p ⟨l, hp⟩ hpre
  obtain ⟨l', more, hfirst, -⟩ := hp.exists_first? hpre
  rw [h] at hfirst
  cases hfirst

/-- Where no lexeme begins, no token does. -/
theorem first?_eq_none_of_isLongest (h : IsLongest IsSpelling 0 (u :: rest)) :
    Lexeme.first? u rest = none := by
  refine Option.eq_none_iff_forall_ne_some.2 ?_
  rintro ⟨l, more⟩ hfirst
  cases (isLongest_of_first? hfirst).2.unique h

end

/-! ## Lexemes with blanks before them -/

/-- A lexeme as it stands in a text: blanks, and then the units that spell it. -/
structure SpacedLexeme where
  gap : Text
  lexeme : Lexeme
  written : Text

/-- The tokens begin one behind the other. -/
def InOrder (ts : List Token) : Prop := ts.Pairwise fun a b => a.position < b.position

namespace SpacedLexeme

/-- The lexemes one after another. -/
def text (ps : List SpacedLexeme) : Text := ps.flatMap fun p => p.gap ++ p.written

/-- The tokens of the lexemes, if they begin at a position. -/
def tokens (position : Nat) : List SpacedLexeme → List Token
  | [] => []
  | p :: ps => ⟨p.lexeme, position + p.gap.length⟩ ::
      tokens (position + p.gap.length + p.written.length) ps

/-- The tokens of the lexemes that a text begins with, and the end. -/
def tokensUntil (stop : Nat) (ps : List SpacedLexeme) : List Token :=
  tokens 0 ps ++ [⟨.finish, stop⟩]

/-- In front of a text each lexeme stands behind blanks and is the longest one that begins where it
stands. -/
def Longest : List SpacedLexeme → Text → Prop
  | [], _ => True
  | p :: ps, x => p.gap.isBlank = true ∧ p.lexeme.Spelling p.written ∧
      IsLongest IsSpelling p.written.length (p.written ++ (text ps ++ x)) ∧ Longest ps x

/-- The same lexemes with other blanks: at least one between two of them. -/
structure Respaces (ps qs : List SpacedLexeme) : Prop where
  same : qs.map (fun q => (q.lexeme, q.written)) = ps.map fun p => (p.lexeme, p.written)
  blank : ∀ q ∈ qs, q.gap.isBlank = true
  apart : ∀ q ∈ qs.tail, q.gap ≠ []

variable {p : SpacedLexeme} {ps qs : List SpacedLexeme} {x y : Text} {pos : Nat}

theorem text_cons (p : SpacedLexeme) (ps : List SpacedLexeme) (x : Text) :
    text (p :: ps) ++ x = p.gap ++ (p.written ++ (text ps ++ x)) := by
  rw [text, List.flatMap_cons, List.append_assoc, List.append_assoc]
  rfl

theorem length_text_cons (p : SpacedLexeme) (ps : List SpacedLexeme) :
    (text (p :: ps)).length = p.gap.length + p.written.length + (text ps).length := by
  rw [text, List.flatMap_cons, List.length_append, List.length_append]
  rfl

theorem map_lexeme_tokens (pos : Nat) (ps : List SpacedLexeme) :
    (tokens pos ps).map Token.lexeme = ps.map lexeme := by
  induction ps generalizing pos with
  | nil => rfl
  | cons p ps ih => rw [tokens, List.map_cons, List.map_cons, ih]

theorem Longest.of_append (h : Longest ps (x ++ y)) : Longest ps x := by
  induction ps with
  | nil => trivial
  | cons p ps ih =>
    obtain ⟨hgap, hspelling, hlongest, hrest⟩ := h
    rw [← List.append_assoc (text ps)] at hlongest
    exact ⟨hgap, hspelling, hlongest.of_append, ih hrest⟩

theorem Longest.spelling (h : Longest ps x) : ∀ p ∈ ps, p.lexeme.Spelling p.written := by
  induction ps with
  | nil => exact fun _ hp => absurd hp List.not_mem_nil
  | cons p ps ih => exact List.forall_mem_cons.2 ⟨h.2.1, ih h.2.2.2⟩

/-- The lexemes begin one behind the other, and all before the end of their text. -/
theorem Longest.ascending (h : Longest ps x) (pos : Nat) :
    InOrder (tokens pos ps) ∧
      ∀ token ∈ tokens pos ps, pos ≤ token.position ∧ token.position < pos + (text ps).length := by
  induction ps generalizing pos with
  | nil => exact ⟨.nil, fun _ hm => absurd hm List.not_mem_nil⟩
  | cons p ps ih =>
    obtain ⟨-, hspelling, -, hrest⟩ := h
    have hpos := List.length_pos_iff.2 hspelling.ne_nil
    obtain ⟨hascending, hbounds⟩ := ih hrest (pos + p.gap.length + p.written.length)
    rw [length_text_cons]
    constructor
    · rw [InOrder, tokens, List.pairwise_cons]
      refine ⟨fun token hm => ?_, hascending⟩
      have hle := (hbounds token hm).1
      dsimp only
      omega
    · intro token hm
      rcases List.mem_cons.1 hm with rfl | hm
      · dsimp only
        omega
      · have hle := hbounds token hm
        omega

/-- Each lexeme is a token, and the tokens of what follows come after them. -/
theorem Longest.tokenizeFrom_append (h : Longest ps x) (pos : Nat) :
    tokenizeFrom pos (text ps ++ x) =
      (tokenizeFrom (pos + (text ps).length) x).map (tokens pos ps ++ ·) := by
  induction ps generalizing pos with
  | nil =>
    show tokenizeFrom pos x = (tokenizeFrom pos x).map ([] ++ ·)
    cases tokenizeFrom pos x <;> rfl
  | cons p ps ih =>
    obtain ⟨hgap, hspelling, hlongest, hrest⟩ := h
    rw [text_cons, tokenizeFrom_blanks hgap, (hspelling.written hlongest).tokenizeFrom_append, ih hrest,
      length_text_cons, ← Nat.add_assoc, ← Nat.add_assoc]
    cases tokenizeFrom (pos + p.gap.length + p.written.length + (text ps).length) x <;> rfl

/-- A lexeme in front of the end or of a blank is the longest that begins where it stands. -/
theorem isLongest_of_spelling {l : Lexeme} {w : Text} (h : l.Spelling w)
    (hx : ∀ u ∈ x.head?, u.isBlank = true) : IsLongest IsSpelling w.length (w ++ x) := by
  have hw : IsLongest IsSpelling w.length w :=
    ⟨Nat.le_refl _, fun _ => by rw [List.take_length]; exact ⟨l, h⟩, fun _ _ hpre => hpre.length_le⟩
  cases x with
  | nil => rwa [List.append_nil]
  | cons u x => exact hw.append_cons unbroken_isSpelling (hx u rfl) x

theorem Respaces.spelling (h : Respaces ps qs) (hps : ∀ p ∈ ps, p.lexeme.Spelling p.written) :
    ∀ q ∈ qs, q.lexeme.Spelling q.written := by
  intro q hq
  have hmem := List.mem_map_of_mem (f := fun q : SpacedLexeme => (q.lexeme, q.written)) hq
  rw [h.same, List.mem_map] at hmem
  obtain ⟨p, hp, e⟩ := hmem
  obtain ⟨hlexeme, hwritten⟩ := Prod.mk.inj e
  rw [← hlexeme, ← hwritten]
  exact hps p hp

theorem Respaces.map_lexeme (h : Respaces ps qs) : qs.map lexeme = ps.map lexeme := by
  have hfst := congrArg (List.map Prod.fst) h.same
  rwa [List.map_map, List.map_map] at hfst

/-- Lexemes between which there are blanks are read apart. -/
theorem longest_of_apart (hspelling : ∀ q ∈ qs, q.lexeme.Spelling q.written)
    (hblank : ∀ q ∈ qs, q.gap.isBlank = true) (hapart : ∀ q ∈ qs.tail, q.gap ≠ [])
    (hx : x.isBlank = true) : Longest qs x := by
  induction qs with
  | nil => trivial
  | cons q qs ih =>
    rw [List.forall_mem_cons] at hspelling hblank
    refine ⟨hblank.1, hspelling.1, isLongest_of_spelling hspelling.1 ?_,
      ih hspelling.2 hblank.2 fun r hr => hapart r (List.mem_of_mem_tail hr)⟩
    cases qs with
    | nil =>
      intro u hu
      exact List.all_eq_true.1 hx u (List.mem_of_mem_head? hu)
    | cons r qs =>
      -- The next lexeme has a blank before it.
      rw [text_cons]
      obtain ⟨v, gap, hgap⟩ := List.exists_cons_of_ne_nil (hapart r List.mem_cons_self)
      have hv := hblank.2 r List.mem_cons_self
      rw [hgap, Text.isBlank_cons] at hv
      rw [hgap]
      intro u hu
      cases hu
      exact hv.1

end SpacedLexeme

open SpacedLexeme (text tokensUntil Longest Respaces)

/-- The text is lexemes with blanks between them, blanks, and a rest that begins neither with a
blank nor with a lexeme. -/
structure Split (t : Text) (ps : List SpacedLexeme) (blanks rest : Text) : Prop where
  text_eq : t = text ps ++ (blanks ++ rest)
  longest : Longest ps (blanks ++ rest)
  blank : blanks.isBlank = true
  not_blank : ∀ u ∈ rest.head?, u.isBlank = false
  no_lexeme : IsLongest IsSpelling 0 rest

namespace Split

variable {t blanks rest : Text} {ps : List SpacedLexeme} {u : CodeUnit}

/-- A blank belongs to what it stands before. -/
theorem blank_cons (h : Split t ps blanks rest) (hu : u.isBlank = true) :
    ∃ ps' blanks', Split (u :: t) ps' blanks' rest := by
  obtain ⟨rfl, hlongest, hblank, hstop, hnone⟩ := h
  cases ps with
  | nil => exact ⟨[], u :: blanks, rfl, trivial, Text.isBlank_cons.2 ⟨hu, hblank⟩, hstop, hnone⟩
  | cons p ps =>
    obtain ⟨hgap, hspelling, hfirst, hrest⟩ := hlongest
    exact ⟨⟨u :: p.gap, p.lexeme, p.written⟩ :: ps, blanks, rfl,
      ⟨Text.isBlank_cons.2 ⟨hu, hgap⟩, hspelling, hfirst, hrest⟩, hblank, hstop, hnone⟩

/-- A token is one more lexeme. -/
theorem lexeme_cons {l : Lexeme} {more : Nat} {tail : Text}
    (hfirst : Lexeme.first? u tail = some (l, more)) (h : Split (tail.drop more) ps blanks rest) :
    Split (u :: tail) (⟨[], l, u :: tail.take more⟩ :: ps) blanks rest := by
  obtain ⟨htext, hlongest, hblank, hstop, hnone⟩ := h
  obtain ⟨hspelling, hmost⟩ := isLongest_of_first? hfirst
  have hsplit : u :: tail = (u :: tail.take more) ++ (text ps ++ (blanks ++ rest)) := by
    rw [← htext, List.cons_append, List.take_append_drop]
  refine ⟨?_, ⟨rfl, hspelling, ?_, hlongest⟩, hblank, hstop, hnone⟩
  · rw [SpacedLexeme.text_cons]
    exact hsplit
  · rwa [← hsplit]

/-- What stands before the rest is tokenized as if it stood alone. -/
theorem tokenize_before (h : Split t ps blanks rest) :
    tokenize (text ps ++ blanks) = .ok (tokensUntil (text ps ++ blanks).length ps) := by
  have hblank := tokenizeFrom_blanks h.blank (0 + (text ps).length) []
  rw [List.append_nil, tokenizeFrom] at hblank
  rw [tokenize, h.longest.of_append.tokenizeFrom_append, hblank, List.length_append, Nat.zero_add]
  rfl

/-- The tokens are the lexemes and the end; or the rest begins with the unit that is reported. -/
theorem tokenize_eq (h : Split t ps blanks rest) :
    (rest = [] ∧ tokenize t = .ok (tokensUntil t.length ps)) ∨
      ∃ u more, rest = u :: more ∧ tokenize t = .error ⟨u, (text ps ++ blanks).length⟩ := by
  cases rest with
  | nil =>
    have hbefore := h.tokenize_before
    rw [h.text_eq, List.append_nil]
    exact Or.inl ⟨rfl, hbefore⟩
  | cons u more =>
    have hblank := tokenizeFrom_blanks h.blank (0 + (text ps).length) (u :: more)
    rw [tokenizeFrom_unexpected (h.not_blank u rfl) (first?_eq_none_of_isLongest h.no_lexeme)] at hblank
    refine Or.inr ⟨u, more, rfl, ?_⟩
    rw [tokenize, h.text_eq, h.longest.tokenizeFrom_append, hblank, List.length_append, Nat.zero_add]
    rfl

/-- The tokens begin one behind the other, and the end behind them all. -/
theorem ascending (h : Split t ps blanks rest) :
    InOrder (tokensUntil (text ps ++ blanks).length ps) := by
  obtain ⟨hascending, hbounds⟩ := h.longest.ascending 0
  rw [InOrder, tokensUntil, List.pairwise_append]
  refine ⟨hascending, List.pairwise_singleton _ _, fun token htoken last hlast => ?_⟩
  have hlt := (hbounds token htoken).2
  rw [List.mem_singleton.1 hlast]
  dsimp only
  rw [List.length_append]
  omega

/-- With other blanks between them the lexemes are the same. -/
theorem tokenize_respaced (h : Split t ps blanks rest) {qs : List SpacedLexeme}
    (hqs : Respaces ps qs) {trailing : Text} (ht : trailing.isBlank = true) :
    ∃ ts, tokenize (text qs ++ trailing) = .ok ts ∧
      ts.map Token.lexeme = ps.map SpacedLexeme.lexeme ++ [.finish] := by
  have hlongest : Longest qs (trailing ++ []) := by
    rw [List.append_nil]
    exact SpacedLexeme.longest_of_apart (hqs.spelling h.longest.spelling) hqs.blank hqs.apart ht
  have hsplit : Split (text qs ++ trailing) qs trailing [] :=
    ⟨by rw [List.append_nil], hlongest, ht, fun u hu => (by cases hu), Text.isLongest_nil _⟩
  refine ⟨_, hsplit.tokenize_before, ?_⟩
  rw [tokensUntil, List.map_append, SpacedLexeme.map_lexeme_tokens, hqs.map_lexeme]
  rfl

end Split

/-- Every text can be split. -/
theorem exists_split (t : Text) : ∃ ps blanks rest, Split t ps blanks rest := by
  fun_induction tokenizeFrom 0 t with
  | case1 pos =>
    refine ⟨[], [], [], rfl, trivial, rfl, ?_, Text.isLongest_nil _⟩
    intro u hu
    cases hu
  | case2 pos u rest hu ih =>
    obtain ⟨ps, blanks, rest', h⟩ := ih
    obtain ⟨ps', blanks', h'⟩ := h.blank_cons hu
    exact ⟨ps', blanks', rest', h'⟩
  | case3 pos u rest hu hfirst =>
    refine ⟨[], [], u :: rest, rfl, trivial, rfl, ?_, isLongest_of_first?_eq_none hfirst⟩
    intro v hv
    cases hv
    exact Bool.eq_false_iff.2 hu
  | case4 pos u rest hu lexeme more hfirst err herr ih =>
    obtain ⟨ps, blanks, rest', h⟩ := ih
    exact ⟨_, _, _, h.lexeme_cons hfirst⟩
  | case5 pos u rest hu lexeme more hfirst tokens htokens ih =>
    obtain ⟨ps, blanks, rest', h⟩ := ih
    exact ⟨_, _, _, h.lexeme_cons hfirst⟩

/-! ## No number is refused -/

theorem Lexeme.Spelling.isNaN {l : Lexeme} {w : Text} (h : l.Spelling w) : l.isNaN = false := by
  cases h with
  | symbol | identifier => rfl
  | number hw => exact Decimal.isNaN_toFloat _

/-- The check of the numbers refuses none. -/
theorem checkedTokensFrom_eq (pos : Nat) (t : Text) :
    checkedTokensFrom pos t = (tokenizeFrom pos t).mapError .unexpectedUnit := by
  fun_induction checkedTokensFrom pos t with
  | case1 pos => rw [tokenizeFrom]; rfl
  | case2 pos u rest hu ih => rw [ih, tokenizeFrom, if_pos hu]
  | case3 pos u rest hu hfirst =>
    rw [tokenizeFrom_unexpected (Bool.eq_false_iff.2 hu) hfirst]
    rfl
  | case4 pos u rest hu lexeme more hfirst hnan =>
    rw [(isLongest_of_first? hfirst).1.isNaN] at hnan
    cases hnan
  | case5 pos u rest hu lexeme more hfirst hnan err herr ih =>
    rw [ih] at herr
    rw [tokenizeFrom_cons (Bool.eq_false_iff.2 hu) hfirst]
    cases h : tokenizeFrom (pos + 1 + more) (rest.drop more) with
    | error e =>
      rw [h] at herr
      cases herr
      rfl
    | ok ts =>
      rw [h] at herr
      cases herr
  | case6 pos u rest hu lexeme more hfirst hnan tokens htokens ih =>
    rw [ih] at htokens
    rw [tokenizeFrom_cons (Bool.eq_false_iff.2 hu) hfirst]
    cases h : tokenizeFrom (pos + 1 + more) (rest.drop more) with
    | error e =>
      rw [h] at htokens
      cases htokens
    | ok ts =>
      rw [h] at htokens
      cases htokens
      rfl

/-- Every text is lexemes with blanks between them, each the longest that begins where it
stands, and either the tokens are these lexemes and the end, one behind the other, or at the
unit that is reported neither a blank nor a lexeme begins, and what stands before it is
tokenized. No number is refused, and with other blanks between the lexemes, one at least, they
are read again. -/
theorem tokenize_splits (t : Text) :
    (∃ ps blanks rest, Split t ps blanks rest) ∧
    (∀ ps blanks rest, Split t ps blanks rest →
      ((rest = [] ∧ tokenize t = .ok (tokensUntil t.length ps)) ∨
        ∃ u more, rest = u :: more ∧ tokenize t = .error ⟨u, (text ps ++ blanks).length⟩) ∧
      tokenize (text ps ++ blanks) = .ok (tokensUntil (text ps ++ blanks).length ps) ∧
      InOrder (tokensUntil (text ps ++ blanks).length ps) ∧
      ∀ qs trailing, Respaces ps qs → trailing.isBlank = true →
        ∃ ts, tokenize (text qs ++ trailing) = .ok ts ∧
          ts.map Token.lexeme = ps.map SpacedLexeme.lexeme ++ [.finish]) ∧
    checkedTokens t = (tokenize t).mapError .unexpectedUnit :=
  ⟨exists_split t,
    fun _ _ _ h => ⟨h.tokenize_eq, h.tokenize_before, h.ascending,
      fun _ _ hqs ht => h.tokenize_respaced hqs ht⟩,
    checkedTokensFrom_eq 0 t⟩

/-- A point begins the second numeral, and an exponent without digits is an identifier. -/
theorem tokenize_splits_exponents :
    ∃ one half e : SpacedLexeme, Split "1e+2.5e" [one, half, e] [] [] ∧
      tokenize "1e+2.5e" = .ok [⟨one.lexeme, 0⟩, ⟨half.lexeme, 4⟩, ⟨e.lexeme, 6⟩, ⟨.finish, 7⟩] ∧
      Respaces [one, half, e] [one, { half with gap := " " }, { e with gap := " \t" }] ∧
      ∃ ts, tokenize "1e+2 .5 \te" = .ok ts ∧
        ts.map Token.lexeme = [one.lexeme, half.lexeme, e.lexeme, .finish] := by
  let one : SpacedLexeme := ⟨[], .number (Decimal.read "1e+2").toFloat, "1e+2"⟩
  let half : SpacedLexeme := ⟨[], .number (Decimal.read ".5").toFloat, ".5"⟩
  let e : SpacedLexeme := ⟨[], .identifier "e", "e"⟩
  have hend : Split [] [] [] [] :=
    ⟨rfl, trivial, rfl, fun u hu => (by cases hu), Text.isLongest_nil _⟩
  have hfirst_e : Lexeme.first? 0x65 [] = some (e.lexeme, 0) := by with_unfolding_all rfl
  have hfirst_half : Lexeme.first? 0x2E [0x35, 0x65] = some (half.lexeme, 1) := by
    with_unfolding_all rfl
  have hfirst_one : Lexeme.first? 0x31 [0x65, 0x2B, 0x32, 0x2E, 0x35, 0x65] = some (one.lexeme, 3) := by
    with_unfolding_all rfl
  have hone : Split "1e+2.5e" [one, half, e] [] [] := by
    with_unfolding_all exact
      Split.lexeme_cons hfirst_one (Split.lexeme_cons hfirst_half (Split.lexeme_cons hfirst_e hend))
  have hrespaces : Respaces [one, half, e] [one, { half with gap := " " }, { e with gap := " \t" }] :=
    ⟨rfl, by decide, by decide⟩
  obtain ⟨hanswer, -, -, hrespaced⟩ := (tokenize_splits "1e+2.5e").2.1 _ _ _ hone
  refine ⟨one, half, e, hone, ?_, hrespaces, hrespaced _ [] hrespaces rfl⟩
  rcases hanswer with ⟨-, h⟩ | ⟨u, more, hrest, -⟩
  · exact h
  · cases hrest

end Formula

end VirtualChannels
