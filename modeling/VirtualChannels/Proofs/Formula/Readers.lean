import VirtualChannels.Proofs.Formula.Answers

/-
  The readers of the parser, one by one: when each of them reads what, in terms of the readers
  it calls. Nothing here looks at error answers.
-/

namespace VirtualChannels.Formula

namespace Parser

/-- The reader answers a value, the names that are noted then and the tokens that are left. -/
def Yields {α : Type} {p : List Token → Prop}
    (answer : Except ParseError (α × List Text × {ts // p ts})) (a : α) (names : List Text)
    (rest : List Token) : Prop := answerOf answer = .ok (a, names, rest)

theorem Yields.property {α : Type} {p : List Token → Prop}
    {answer : Except ParseError (α × List Text × {ts // p ts})} {a : α} {names : List Text}
    {rest : List Token} (h : Yields answer a names rest) : p rest := by
  cases answer with
  | error e => cases h
  | ok answer =>
    obtain ⟨a', names', rest', hrest⟩ := answer
    cases h
    exact hrest

section
variable {names noted : List Text} {token : Token} {ts rest : List Token} {left e : Expr}
  {es : List Expr}

theorem expression_yields : Yields (expression names ts) e noted rest ↔
    ∃ left between mid, Yields (term names ts) left between mid ∧
      Yields (sums left between mid) e noted rest := by
  unfold Yields
  rw [answerOf_expression, Answer.andThen_eq_ok_iff]

theorem term_yields : Yields (term names ts) e noted rest ↔
    ∃ left between mid, Yields (unary names ts) left between mid ∧
      Yields (products left between mid) e noted rest := by
  unfold Yields
  rw [answerOf_term, Answer.andThen_eq_ok_iff]

theorem sums_yields_of_none (ho : sumOperator? token.lexeme = none) :
    Yields (sums left names (token :: ts)) e noted rest ↔
      e = left ∧ noted = names ∧ rest = token :: ts := by
  unfold Yields
  rw [answerOf_sums, ho, Option.elim_none]
  simp [eq_comm]

theorem sums_yields_of_some {op : Operator} (ho : sumOperator? token.lexeme = some op) :
    Yields (sums left names (token :: ts)) e noted rest ↔
      ∃ right between mid, Yields (term names ts) right between mid ∧
        Yields (sums (.binary op left right) between mid) e noted rest := by
  unfold Yields
  rw [answerOf_sums, ho, Option.elim_some, Answer.andThen_eq_ok_iff]

theorem products_yields_of_none (ho : productOperator? token.lexeme = none) :
    Yields (products left names (token :: ts)) e noted rest ↔
      e = left ∧ noted = names ∧ rest = token :: ts := by
  unfold Yields
  rw [answerOf_products, ho, Option.elim_none]
  simp [eq_comm]

theorem products_yields_of_some {op : Operator} (ho : productOperator? token.lexeme = some op) :
    Yields (products left names (token :: ts)) e noted rest ↔
      ∃ right between mid, Yields (unary names ts) right between mid ∧
        Yields (products (.binary op left right) between mid) e noted rest := by
  unfold Yields
  rw [answerOf_products, ho, Option.elim_some, Answer.andThen_eq_ok_iff]

theorem unary_yields_of_none (hs : sign? token.lexeme = none) :
    Yields (unary names (token :: ts)) e noted rest ↔
      Yields (power names (token :: ts)) e noted rest := by
  unfold Yields
  rw [answerOf_unary, hs]

theorem unary_yields_of_some {s : Sign} (hs : sign? token.lexeme = some s) :
    Yields (unary names (token :: ts)) e noted rest ↔
      ∃ inner, Yields (unary names ts) inner noted rest ∧ e = .sign s inner := by
  unfold Yields
  rw [answerOf_unary, hs]
  dsimp only
  rw [Answer.andThen_eq_ok_iff]
  constructor
  · rintro ⟨inner, between, mid, hu, h⟩
    cases h
    exact ⟨inner, hu, rfl⟩
  · rintro ⟨inner, hu, rfl⟩
    exact ⟨inner, noted, rest, hu, rfl⟩

/-- A power is a primary with no `^` after it, or a primary, `^` and a unary. -/
theorem power_yields : Yields (power names ts) e noted rest ↔
    (Yields (primary names ts) e noted rest ∧ ∀ p next, rest ≠ ⟨.symbol .caret, p⟩ :: next) ∨
    ∃ b between p next exponent, Yields (primary names ts) b between (⟨.symbol .caret, p⟩ :: next) ∧
      Yields (unary between next) exponent noted rest ∧ e = .binary .pow b exponent := by
  unfold Yields
  rw [answerOf_power, Answer.andThen_eq_ok_iff]
  constructor
  · rintro ⟨b, between, mid, hb, h⟩
    cases hc : after? .caret mid with
    | none =>
      rw [hc] at h
      cases h
      exact Or.inl ⟨hb, after?_eq_none_iff.1 hc⟩
    | some next =>
      rw [hc] at h
      obtain ⟨next, hnext⟩ := next
      obtain ⟨p, rfl⟩ := after?_eq_some_iff.1 ⟨hnext, hc⟩
      obtain ⟨exponent, names', last, hu, h⟩ := Answer.andThen_eq_ok_iff.1 h
      cases h
      exact Or.inr ⟨b, between, p, next, exponent, hb, hu, rfl⟩
  · rintro (⟨hb, hc⟩ | ⟨b, between, p, next, exponent, hb, hu, rfl⟩)
    · exact ⟨e, noted, rest, hb, by rw [after?_eq_none_iff.2 hc]⟩
    · refine ⟨b, between, _, hb, ?_⟩
      rw [after?_symbol]
      exact Answer.andThen_eq_ok_iff.2 ⟨exponent, noted, rest, hu, rfl⟩

theorem primary_yields_number {x : Float} {p : Nat} :
    Yields (primary names (⟨.number x, p⟩ :: ts)) e noted rest ↔
      e = .number x ∧ noted = names ∧ rest = ts := by
  unfold Yields
  rw [primary]
  simp [answerOf, eq_comm]

theorem primary_yields_openParen {p : Nat} :
    Yields (primary names (⟨.symbol .openParen, p⟩ :: ts)) e noted rest ↔ ∃ inner q,
      Yields (expression names ts) inner noted (⟨.symbol .closeParen, q⟩ :: rest) ∧
        e = .group inner := by
  unfold Yields
  rw [answerOf_group, Answer.andThen_eq_ok_iff]
  constructor
  · rintro ⟨inner, between, mid, he, h⟩
    obtain ⟨q, last, rfl, h⟩ := afterClose_eq_ok_iff.1 h
    cases h
    exact ⟨inner, q, he, rfl⟩
  · rintro ⟨inner, q, he, rfl⟩
    exact ⟨inner, noted, _, he, afterClose_eq_ok_iff.2 ⟨q, rest, rfl, rfl⟩⟩

theorem not_primary_yields_finish {p : Nat} :
    ¬ Yields (primary names (⟨.finish, p⟩ :: ts)) e noted rest := by
  intro h
  rw [Yields, primary] at h
  cases h

theorem not_primary_yields_symbol {s : Symbol} {p : Nat} (hs : s ≠ .openParen) :
    ¬ Yields (primary names (⟨.symbol s, p⟩ :: ts)) e noted rest := by
  intro h
  rw [Yields, primary] at h
  simp only [if_neg hs] at h
  cases h

theorem expressions_yields : Yields (expressions names ts) es noted rest ↔
    (∃ e, Yields (expression names ts) e noted rest ∧
      (∀ p next, rest ≠ ⟨.symbol .comma, p⟩ :: next) ∧ es = [e]) ∨
    ∃ e between p next others,
      Yields (expression names ts) e between (⟨.symbol .comma, p⟩ :: next) ∧
      Yields (expressions between next) others noted rest ∧ es = e :: others := by
  unfold Yields
  rw [answerOf_expressions, Answer.andThen_eq_ok_iff]
  constructor
  · rintro ⟨first, between, mid, he, h⟩
    unfold furtherArguments at h
    cases hc : after? .comma mid with
    | none =>
      rw [hc] at h
      cases h
      exact Or.inl ⟨first, he, after?_eq_none_iff.1 hc, rfl⟩
    | some next =>
      rw [hc] at h
      obtain ⟨next, hnext⟩ := next
      obtain ⟨p, rfl⟩ := after?_eq_some_iff.1 ⟨hnext, hc⟩
      obtain ⟨others, names', last, hes, h⟩ := Answer.andThen_eq_ok_iff.1 h
      cases h
      exact Or.inr ⟨first, between, p, next, others, he, hes, rfl⟩
  · rintro (⟨e, he, hc, rfl⟩ | ⟨e, between, p, next, others, he, hes, rfl⟩)
    · exact ⟨e, noted, rest, he, by rw [furtherArguments, after?_eq_none_iff.2 hc]⟩
    · refine ⟨e, between, _, he, ?_⟩
      rw [furtherArguments, after?_symbol]
      exact Answer.andThen_eq_ok_iff.2 ⟨others, noted, rest, hes, rfl⟩

theorem arguments_yields : Yields (arguments names ts) es noted rest ↔
    ((∃ p more, ts = ⟨.symbol .closeParen, p⟩ :: more) ∧ es = [] ∧ noted = names ∧ rest = ts) ∨
    ((∀ p more, ts ≠ ⟨.symbol .closeParen, p⟩ :: more) ∧
      Yields (expressions names ts) es noted rest) := by
  unfold Yields
  rw [answerOf_arguments]
  constructor
  · intro h
    cases hc : after? .closeParen ts with
    | none =>
      rw [hc] at h
      exact Or.inr ⟨after?_eq_none_iff.1 hc, h⟩
    | some more =>
      rw [hc] at h
      cases h
      obtain ⟨p, hts⟩ := after?_eq_some_iff.1 ⟨more.2, hc⟩
      exact Or.inl ⟨⟨p, more.1, hts⟩, rfl, rfl, rfl⟩
  · rintro (⟨⟨p, more, hts⟩, rfl, rfl, rfl⟩ | ⟨hc, hes⟩)
    · rw [hts, after?_symbol]
    · rw [after?_eq_none_iff.2 hc]
      exact hes

theorem not_accepts_zero (f : Builtin) : f.accepts 0 = false := by
  cases f <;> rfl

/-- An expression that does not begin with a sign begins with a primary. -/
theorem exists_primary_yields (hs : sign? token.lexeme = none)
    (h : Yields (expression names (token :: ts)) e noted rest) :
    ∃ e' noted' rest', Yields (primary names (token :: ts)) e' noted' rest' := by
  obtain ⟨left, _, _, ht, -⟩ := expression_yields.1 h
  obtain ⟨first, _, _, hu, -⟩ := term_yields.1 ht
  rcases power_yields.1 ((unary_yields_of_none hs).1 hu) with
    ⟨hp, -⟩ | ⟨b, _, q, next, x, hp, -⟩
  · exact ⟨_, _, _, hp⟩
  · exact ⟨_, _, _, hp⟩

/-- No expression begins with a closing parenthesis, so a call has arguments. -/
theorem not_expressions_yields_closeParen {p : Nat} :
    ¬ Yields (expressions names (⟨.symbol .closeParen, p⟩ :: ts)) es noted rest := by
  have hp : ∀ e noted mid,
      ¬ Yields (expression names (⟨.symbol .closeParen, p⟩ :: ts)) e noted mid := by
    intro e noted mid h
    obtain ⟨e', noted', mid', h'⟩ := exists_primary_yields rfl h
    exact not_primary_yields_symbol (by decide) h'
  intro h
  rcases expressions_yields.1 h with ⟨e, h, -⟩ | ⟨e, between, q, next, others, h, -⟩
  · exact hp _ _ _ h
  · exact hp _ _ _ h

theorem plainName_eq_ok_iff {n : Text} :
    plainName n ts = .ok e ↔ ts ≠ [] ∧ Builtin.find? n = none ∧ e = .name n := by
  cases ts with
  | nil => simp [plainName]
  | cons next more =>
    unfold plainName
    cases Builtin.find? n with
    | none => simp [eq_comm]
    | some f => simp

theorem checkedCall_eq_ok_iff {n : Text} {f : Builtin} :
    checkedCall n f es = .ok e ↔ f.accepts es.length = true ∧ e = .call f.name es := by
  unfold checkedCall
  cases f.accepts es.length with
  | false => simp
  | true => simp [eq_comm]

/-- An identifier is a name where no `(` follows, else the function of a call. -/
theorem primary_yields_identifier {n : Text} {p : Nat} :
    Yields (primary names (⟨.identifier n, p⟩ :: ts)) e noted rest ↔
      (ts ≠ [] ∧ (∀ q start, ts ≠ ⟨.symbol .openParen, q⟩ :: start) ∧
        Builtin.find? n = none ∧ e = .name n ∧ noted = note names n ∧ rest = ts) ∨
      ∃ q start f args q', ts = ⟨.symbol .openParen, q⟩ :: start ∧ Builtin.find? n = some f ∧
        Yields (expressions names start) args noted (⟨.symbol .closeParen, q'⟩ :: rest) ∧
        f.accepts args.length = true ∧ e = .call f.name args := by
  unfold Yields
  constructor
  · intro h
    cases ho : after? .openParen ts with
    | none =>
      rw [answerOf_name _ _ ho] at h
      split at h
      · cases h
      · rename_i e' he
        cases h
        obtain ⟨hne, hf, rfl⟩ := plainName_eq_ok_iff.1 he
        exact Or.inl ⟨hne, after?_eq_none_iff.1 ho, hf, rfl, rfl, rfl⟩
    | some start =>
      obtain ⟨start, hstart⟩ := start
      obtain ⟨q, rfl⟩ := after?_eq_some_iff.1 ⟨hstart, ho⟩
      rw [answerOf_call] at h
      cases hf : Builtin.find? n with
      | none =>
        rw [hf] at h
        cases h
      | some f =>
        rw [hf] at h
        obtain ⟨args, between, mid, ha, h⟩ := Answer.andThen_eq_ok_iff.1 h
        obtain ⟨q', last, rfl, h⟩ := afterClose_eq_ok_iff.1 h
        split at h
        · cases h
        · rename_i e' he
          cases h
          obtain ⟨hn, rfl⟩ := checkedCall_eq_ok_iff.1 he
          rcases arguments_yields.1 ha with ⟨-, rfl, -⟩ | ⟨-, hes⟩
          · rw [List.length_nil, not_accepts_zero] at hn
            cases hn
          · exact Or.inr ⟨q, start, f, args, q', rfl, rfl, hes, hn, rfl⟩
  · rintro (⟨hne, ho, hf, rfl, rfl, rfl⟩ | ⟨q, start, f, args, q', rfl, hf, hes, hn, rfl⟩)
    · rw [answerOf_name _ _ (after?_eq_none_iff.2 ho), plainName_eq_ok_iff.2 ⟨hne, hf, rfl⟩]
    · have hne : ∀ r more, start ≠ ⟨.symbol .closeParen, r⟩ :: more := by
        rintro r more rfl
        exact not_expressions_yields_closeParen hes
      rw [answerOf_call, hf]
      refine Answer.andThen_eq_ok_iff.2
        ⟨args, noted, _, arguments_yields.2 (Or.inr ⟨hne, hes⟩), ?_⟩
      refine afterClose_eq_ok_iff.2 ⟨q', rest, rfl, ?_⟩
      rw [checkedCall_eq_ok_iff.2 ⟨hn, rfl⟩]

end

end Parser

/-! ## All tokens -/

theorem atEnd_eq_ok_iff {ts : List Token} :
    atEnd ts = .ok () ↔ ∃ p more, ts = ⟨.finish, p⟩ :: more := by
  constructor
  · intro h
    cases ts with
    | nil => cases h
    | cons token more =>
      obtain ⟨l, p⟩ := token
      cases l with
      | finish => exact ⟨p, more, rfl⟩
      | number | identifier | symbol => cases h
  · rintro ⟨p, more, rfl⟩
    rfl

theorem compileTokens_eq_ok_iff {ts : List Token} {c : Compiled} :
    compileTokens ts = .ok c ↔
      ∃ p more, Parser.Yields (Parser.expression [] ts) c.expr c.names (⟨.finish, p⟩ :: more) := by
  unfold compileTokens Parser.Yields
  cases Parser.expression [] ts with
  | error err => simp [Parser.answerOf]
  | ok answer =>
    obtain ⟨e, names, rest, hrest⟩ := answer
    obtain ⟨expr, noted⟩ := c
    dsimp only [Parser.answerOf]
    constructor
    · intro h
      split at h
      · cases h
      · rename_i hend
        cases h
        obtain ⟨p, more, rfl⟩ := atEnd_eq_ok_iff.1 hend
        exact ⟨p, more, rfl⟩
    · rintro ⟨p, more, h⟩
      cases h
      rfl

theorem parseTokens_eq_ok_iff_yields {ts : List Token} {e : Expr} :
    parseTokens ts = .ok e ↔
      ∃ noted p more, Parser.Yields (Parser.expression [] ts) e noted (⟨.finish, p⟩ :: more) := by
  unfold parseTokens
  constructor
  · intro h
    cases hc : compileTokens ts with
    | error err =>
      rw [hc] at h
      cases h
    | ok c =>
      rw [hc] at h
      cases h
      exact ⟨c.names, compileTokens_eq_ok_iff.1 hc⟩
  · rintro ⟨noted, h⟩
    rw [(compileTokens_eq_ok_iff (c := ⟨e, noted⟩)).2 h]
    rfl

/-- The expression of a text is that of its tokens, if it has any but the end. -/
theorem parse_eq (t : Text) :
    parse t =
      if t.isBlank then .error .blank
      else
        match tokenize t with
        | .error e => .error (.unexpectedUnit e.unit e.position)
        | .ok ts => parseTokens ts := by
  unfold parse compile
  split
  · rfl
  · cases tokenize t with
    | error e => rfl
    | ok ts => rfl

end VirtualChannels.Formula
