import VirtualChannels.Formula.Parser

/-
  What the readers of the parser answer, without the bounds that they prove on the tokens they
  leave: each answer is put together from those of the readers that are called.
-/

namespace VirtualChannels.Formula.Parser

/-! ## Symbols -/

theorem after?_symbol (s : Symbol) (p : Nat) (rest : List Token) :
    after? s (⟨.symbol s, p⟩ :: rest) = some ⟨rest, Nat.lt_succ_self _⟩ := by
  simp [after?]

theorem after?_eq_some_iff {s : Symbol} {ts rest : List Token} :
    (∃ h, after? s ts = some ⟨rest, h⟩) ↔ ∃ p, ts = ⟨.symbol s, p⟩ :: rest := by
  constructor
  · rintro ⟨h, e⟩
    match ts with
    | [] => cases e
    | ⟨.symbol s', p⟩ :: us =>
      simp only [after?] at e
      split at e
      · rename_i hs
        cases e
        exact ⟨p, by rw [hs]⟩
      · cases e
    | ⟨.number _, _⟩ :: _ | ⟨.identifier _, _⟩ :: _ | ⟨.finish, _⟩ :: _ => cases e
  · rintro ⟨p, rfl⟩
    exact ⟨Nat.lt_succ_self _, after?_symbol s p rest⟩

theorem after?_eq_none_iff {s : Symbol} {ts : List Token} :
    after? s ts = none ↔ ∀ p rest, ts ≠ ⟨.symbol s, p⟩ :: rest := by
  constructor
  · rintro h p rest rfl
    rw [after?_symbol] at h
    cases h
  · intro h
    match e : after? s ts with
    | none => rfl
    | some ⟨rest, hlt⟩ =>
      obtain ⟨p, rfl⟩ := after?_eq_some_iff.1 ⟨hlt, e⟩
      exact absurd rfl (h p rest)

theorem closeParen_symbol (p : Nat) (rest : List Token) :
    closeParen (⟨.symbol .closeParen, p⟩ :: rest) = .ok ⟨rest, Nat.lt_succ_self _⟩ := by
  rw [closeParen, after?_symbol]

theorem closeParen_eq_ok_iff {ts rest : List Token} :
    (∃ h, closeParen ts = .ok ⟨rest, h⟩) ↔ ∃ p, ts = ⟨.symbol .closeParen, p⟩ :: rest := by
  rw [← after?_eq_some_iff]
  unfold closeParen
  cases after? .closeParen ts <;> simp

theorem after?_of_ne {s : Symbol} {token : Token} {rest : List Token}
    (hne : token.lexeme ≠ .symbol s) : after? s (token :: rest) = none :=
  after?_eq_none_iff.2 fun p rest h => hne (by cases h; rfl)

/-! ## Answers -/

/-- What a reader answers: a value, the names that are noted then and the tokens that are left. -/
abbrev Answer (α : Type) : Type := Except ParseError (α × List Text × List Token)

section
variable {α β : Type} {p : List Token → Prop}

def Answer.andThen (answer : Answer α) (next : α → List Text → List Token → Answer β) : Answer β :=
  match answer with
  | .error e => .error e
  | .ok (a, names, rest) => next a names rest

theorem Answer.andThen_andThen {γ : Type} (answer : Answer α)
    (next : α → List Text → List Token → Answer β)
    (last : β → List Text → List Token → Answer γ) :
    (answer.andThen next).andThen last =
      answer.andThen fun a names rest => (next a names rest).andThen last := by
  cases answer with
  | error e => rfl
  | ok answer => rfl

theorem Answer.andThen_eq_ok_iff {answer : Answer α}
    {next : α → List Text → List Token → Answer β} {b : β} {names : List Text}
    {rest : List Token} :
    answer.andThen next = .ok (b, names, rest) ↔ ∃ a between mid,
      answer = .ok (a, between, mid) ∧ next a between mid = .ok (b, names, rest) := by
  cases answer with
  | error e => simp [andThen]
  | ok answer =>
    obtain ⟨a, between, mid⟩ := answer
    constructor
    · exact fun h => ⟨a, between, mid, rfl, h⟩
    · rintro ⟨a', between', mid', h, h'⟩
      cases h
      exact h'

def answerOf : Except ParseError (α × List Text × {rest // p rest}) → Answer α
  | .error e => .error e
  | .ok (a, names, rest) => .ok (a, names, rest.1)

/-- What is read after a closing parenthesis, which must come next. -/
def afterClose (ts : List Token) (next : List Token → Answer β) : Answer β :=
  match closeParen ts with
  | .error e => .error e
  | .ok rest => next rest.1

theorem afterClose_eq_ok_iff {ts rest : List Token} {next : List Token → Answer β} {b : β}
    {names : List Text} :
    afterClose ts next = .ok (b, names, rest) ↔
      ∃ p mid, ts = ⟨.symbol .closeParen, p⟩ :: mid ∧ next mid = .ok (b, names, rest) := by
  unfold afterClose
  constructor
  · intro h
    split at h
    · cases h
    · rename_i mid hc
      obtain ⟨p, hts⟩ := closeParen_eq_ok_iff.1 ⟨mid.2, hc⟩
      exact ⟨p, mid.1, hts, h⟩
  · rintro ⟨p, mid, rfl, h⟩
    rw [closeParen_symbol]
    exact h

/-- The arguments that have been read and those after a comma, if one comes next. -/
def furtherArguments (args : List Expr) (names : List Text) (ts : List Token) :
    Answer (List Expr) :=
  match after? .comma ts with
  | none => .ok (args, names, ts)
  | some next =>
    (answerOf (expressions names next.1)).andThen fun others names last =>
      .ok (args ++ others, names, last)

end

section
variable (names : List Text) (ts : List Token)

theorem answerOf_expression : answerOf (expression names ts) =
    (answerOf (term names ts)).andThen fun left names rest =>
      answerOf (sums left names rest) := by
  rw [expression]
  cases term names ts with
  | error e => rfl
  | ok answer =>
    obtain ⟨left, names, rest, hrest⟩ := answer
    dsimp only [answerOf, Answer.andThen]
    cases sums left names rest with
    | error e => rfl
    | ok answer => rfl

theorem answerOf_sums (left : Expr) (token : Token) :
    answerOf (sums left names (token :: ts)) =
      (sumOperator? token.lexeme).elim (.ok (left, names, token :: ts)) fun op =>
        (answerOf (term names ts)).andThen fun right names rest =>
          answerOf (sums (.binary op left right) names rest) := by
  rw [sums]
  cases sumOperator? token.lexeme with
  | none => rfl
  | some op =>
    dsimp only [Option.elim_some]
    cases term names ts with
    | error e => rfl
    | ok answer =>
      obtain ⟨right, names, rest, hrest⟩ := answer
      dsimp only [answerOf, Answer.andThen]
      cases sums (.binary op left right) names rest with
      | error e => rfl
      | ok answer => rfl

theorem answerOf_term : answerOf (term names ts) =
    (answerOf (unary names ts)).andThen fun left names rest =>
      answerOf (products left names rest) := by
  rw [term]
  cases unary names ts with
  | error e => rfl
  | ok answer =>
    obtain ⟨left, names, rest, hrest⟩ := answer
    dsimp only [answerOf, Answer.andThen]
    cases products left names rest with
    | error e => rfl
    | ok answer => rfl

theorem answerOf_products (left : Expr) (token : Token) :
    answerOf (products left names (token :: ts)) =
      (productOperator? token.lexeme).elim (.ok (left, names, token :: ts)) fun op =>
        (answerOf (unary names ts)).andThen fun right names rest =>
          answerOf (products (.binary op left right) names rest) := by
  rw [products]
  cases productOperator? token.lexeme with
  | none => rfl
  | some op =>
    dsimp only [Option.elim_some]
    cases unary names ts with
    | error e => rfl
    | ok answer =>
      obtain ⟨right, names, rest, hrest⟩ := answer
      dsimp only [answerOf, Answer.andThen]
      cases products (.binary op left right) names rest with
      | error e => rfl
      | ok answer => rfl

theorem answerOf_unary (token : Token) : answerOf (unary names (token :: ts)) =
    match sign? token.lexeme with
    | none => answerOf (power names (token :: ts))
    | some s => (answerOf (unary names ts)).andThen fun operand names rest =>
        .ok (.sign s operand, names, rest) := by
  rw [unary]
  cases sign? token.lexeme with
  | none => rfl
  | some s =>
    dsimp only
    cases unary names ts with
    | error e => rfl
    | ok answer => rfl

theorem answerOf_power : answerOf (power names ts) =
    (answerOf (primary names ts)).andThen fun base names rest =>
      match after? .caret rest with
      | none => .ok (base, names, rest)
      | some next => (answerOf (unary names next.1)).andThen fun exponent names last =>
          .ok (.binary .pow base exponent, names, last) := by
  rw [power]
  cases primary names ts with
  | error e => rfl
  | ok answer =>
    obtain ⟨base, names, rest, hrest⟩ := answer
    dsimp only [answerOf, Answer.andThen]
    cases after? .caret rest with
    | none => rfl
    | some next =>
      dsimp only
      cases unary names next.1 with
      | error e => rfl
      | ok answer => rfl

theorem answerOf_group (position : Nat) :
    answerOf (primary names (⟨.symbol .openParen, position⟩ :: ts)) =
      (answerOf (expression names ts)).andThen fun inner names rest =>
        afterClose rest fun last => .ok (.group inner, names, last) := by
  rw [primary]
  dsimp only
  rw [if_pos rfl]
  cases expression names ts with
  | error e => rfl
  | ok answer =>
    obtain ⟨inner, names, rest, hrest⟩ := answer
    dsimp only [answerOf, Answer.andThen, afterClose]
    cases closeParen rest with
    | error e => rfl
    | ok last => rfl

theorem answerOf_name {name : Text} {position : Nat}
    (h : after? .openParen ts = none) :
    answerOf (primary names (⟨.identifier name, position⟩ :: ts)) =
      match plainName name ts with
      | .error e => .error e
      | .ok e => .ok (e, note names name, ts) := by
  rw [primary]
  dsimp only
  rw [h]
  dsimp only
  cases plainName name ts with
  | error e => rfl
  | ok e => rfl

theorem answerOf_call (name : Text) (position : Nat) (opening : Nat) :
    answerOf (primary names
        (⟨.identifier name, position⟩ :: ⟨.symbol .openParen, opening⟩ :: ts)) =
      match Builtin.find? name with
      | none => .error (.unknownFunction name position)
      | some f => (answerOf (arguments names ts)).andThen fun args names rest =>
          afterClose rest fun last =>
            match checkedCall name f args with
            | .error e => .error e
            | .ok e => .ok (e, names, last) := by
  rw [primary]
  dsimp only
  rw [after?_symbol]
  dsimp only
  cases Builtin.find? name with
  | none => rfl
  | some f =>
    dsimp only
    cases arguments names ts with
    | error e => rfl
    | ok answer =>
      obtain ⟨args, names, rest, hrest⟩ := answer
      dsimp only [answerOf, Answer.andThen, afterClose]
      cases closeParen rest with
      | error e => rfl
      | ok last =>
        dsimp only
        cases checkedCall name f args with
        | error e => rfl
        | ok e => rfl

theorem answerOf_arguments : answerOf (arguments names ts) =
    match after? .closeParen ts with
    | some _ => .ok ([], names, ts)
    | none => answerOf (expressions names ts) := by
  rw [arguments]
  cases after? .closeParen ts with
  | some rest => rfl
  | none =>
    dsimp only
    cases expressions names ts with
    | error e => rfl
    | ok answer => rfl

theorem answerOf_expressions : answerOf (expressions names ts) =
    (answerOf (expression names ts)).andThen fun first names rest =>
      furtherArguments [first] names rest := by
  rw [expressions]
  cases expression names ts with
  | error e => rfl
  | ok answer =>
    obtain ⟨first, names, rest, hrest⟩ := answer
    dsimp only [answerOf, Answer.andThen, furtherArguments]
    cases after? .comma rest with
    | none => rfl
    | some next =>
      dsimp only
      cases expressions names next.1 with
      | error e => rfl
      | ok answer => rfl

end

end VirtualChannels.Formula.Parser
