import VirtualChannels.Proofs.Formula.Readers

/-
  What the complaints about a formula point at. A reader leaves the last ones of the tokens it
  got, and when it fails, the position it reports is that of one of them (`Parser.PointsInto`),
  of the kind that the complaint is about (`ParseError.About`). So every position in a complaint
  is that of a token, or of the unit at which none begins (`exists_token_of_parse_error`).
-/

namespace VirtualChannels.Formula

namespace ParseError

/-- The position that the message gives, if it gives one. -/
def position? : ParseError → Option Nat
  | unexpectedUnit _ position => some position
  | expectedCloseParen _ position => some position
  | unexpectedToken _ position => some position
  | unexpectedEnd position => some position
  | functionWithoutCall _ position => some position
  | unknownFunction _ position => some position
  | blank | argumentCount _ _ _ | noEnd => none

/-- The message gives the position, and the number of the position ends there. -/
def Gives (message : Text) (position : Nat) : Prop :=
  ∃ before after, message = before ++ (atPosition position ++ after) ∧
    ∀ u ∈ after.head?, u.isDigit = false

theorem gives_join (before : List Text) {after : List Text} {position : Nat}
    (h : ∀ u ∈ (Text.join after).head?, u.isDigit = false) :
    Gives (Text.join (before ++ atPosition position :: after)) position :=
  ⟨Text.join before, Text.join after, List.flatten_append, h⟩

theorem gives_message {e : ParseError} {position : Nat} (h : e.position? = some position) :
    Gives e.message position := by
  have hend : ∀ u ∈ (Text.join []).head?, u.isDigit = false := fun _ hu => nomatch hu
  cases e with
  | blank | argumentCount | noEnd => cases h
  | unexpectedEnd =>
    cases h
    exact gives_join [_] hend
  | unexpectedUnit | expectedCloseParen | unexpectedToken | functionWithoutCall =>
    cases h
    exact gives_join [_, _] hend
  | unknownFunction =>
    cases h
    refine gives_join [_, _] fun u hu => ?_
    obtain rfl : 0x2E = u := Option.some.inj hu
    decide

/-- The token, one of those given, that the complaint is about: the one that stands where
another was expected, the end, or the name of the function. -/
inductive About (ts : List Token) : ParseError → Token → Prop
  | expectedCloseParen {found : Lexeme} {position : Nat} (h : ⟨found, position⟩ ∈ ts) :
      About ts (.expectedCloseParen found position) ⟨found, position⟩
  | unexpectedToken {found : Lexeme} {position : Nat} (h : ⟨found, position⟩ ∈ ts) :
      About ts (.unexpectedToken found position) ⟨found, position⟩
  | unexpectedEnd {position : Nat} (h : ⟨.finish, position⟩ ∈ ts) :
      About ts (.unexpectedEnd position) ⟨.finish, position⟩
  | functionWithoutCall {name : Text} {start : Nat} {next : Token}
      (h : [⟨.identifier name, start⟩, next] <:+: ts) :
      About ts (.functionWithoutCall name next.position) next
  | unknownFunction {name : Text} {position : Nat} (h : ⟨.identifier name, position⟩ ∈ ts) :
      About ts (.unknownFunction name position) ⟨.identifier name, position⟩

/-- The complaint gives no position, or is about one of the tokens. -/
def Concerns (ts : List Token) (e : ParseError) : Prop :=
  e.position? = none ∨ ∃ token, About ts e token

variable {ts rest : List Token} {e : ParseError} {token : Token}

theorem About.position_eq (h : About ts e token) : e.position? = some token.position := by
  cases h <;> rfl

theorem About.mem (h : About ts e token) : token ∈ ts := by
  cases h with
  | expectedCloseParen h | unexpectedToken h | unexpectedEnd h | unknownFunction h => exact h
  | functionWithoutCall h => exact h.subset (List.mem_cons_of_mem _ List.mem_cons_self)

theorem About.mono (h : About rest e token) (hs : rest <:+ ts) : About ts e token := by
  cases h with
  | expectedCloseParen h => exact .expectedCloseParen (hs.subset h)
  | unexpectedToken h => exact .unexpectedToken (hs.subset h)
  | unexpectedEnd h => exact .unexpectedEnd (hs.subset h)
  | functionWithoutCall h => exact .functionWithoutCall (h.trans hs.isInfix)
  | unknownFunction h => exact .unknownFunction (hs.subset h)

theorem Concerns.mono (h : Concerns rest e) (hs : rest <:+ ts) : Concerns ts e :=
  h.imp_right fun ⟨token, ha⟩ => ⟨token, ha.mono hs⟩

theorem About.concerns (h : About ts e token) : Concerns ts e := Or.inr ⟨token, h⟩

end ParseError

namespace Parser

open ParseError (Concerns)

/-- The tokens that are left are the last ones, or the complaint concerns one of the tokens. -/
def PointsInto {α : Type} (ts : List Token) : Answer α → Prop
  | .ok (_, _, rest) => rest <:+ ts
  | .error e => Concerns ts e

namespace PointsInto

variable {α β : Type} {ts rest : List Token} {answer : Answer α}

theorem mono (h : PointsInto rest answer) (hs : rest <:+ ts) : PointsInto ts answer := by
  cases answer with
  | error e => exact Concerns.mono h hs
  | ok answer => exact List.IsSuffix.trans h hs

/-- What one reader leaves is a suffix for the next one, so a complaint of the next one is
carried back to the tokens of the first. -/
theorem andThen {next : α → List Text → List Token → Answer β} (h : PointsInto ts answer)
    (hnext : ∀ a names rest, answer = .ok (a, names, rest) →
      PointsInto rest (next a names rest)) : PointsInto ts (answer.andThen next) := by
  cases answer with
  | error e => exact h
  | ok answer => exact (hnext _ _ _ rfl).mono h

end PointsInto

/-! ## What readers share -/

variable {ts rest : List Token} {e : ParseError}

theorem suffix_of_after? {s : Symbol} {h : rest.length < ts.length}
    (ha : after? s ts = some ⟨rest, h⟩) : rest <:+ ts := by
  obtain ⟨position, rfl⟩ := after?_eq_some_iff.1 ⟨h, ha⟩
  exact List.suffix_cons _ _

theorem pointsInto_afterClose {β : Type} {next : List Token → Answer β}
    (hnext : ∀ rest, PointsInto rest (next rest)) : PointsInto ts (afterClose ts next) := by
  unfold afterClose
  cases hc : closeParen ts with
  | error e =>
    unfold closeParen at hc
    split at hc
    · cases hc
    · cases hc
      cases ts with
      | nil => exact Or.inl rfl
      | cons token rest => exact (ParseError.About.expectedCloseParen List.mem_cons_self).concerns
  | ok rest =>
    obtain ⟨rest, hrest⟩ := rest
    obtain ⟨position, rfl⟩ := closeParen_eq_ok_iff.1 ⟨hrest, hc⟩
    exact (hnext rest).mono (List.suffix_cons _ rest)

theorem concerns_of_plainName {name : Text} {position : Nat} (h : plainName name rest = .error e) :
    Concerns (⟨.identifier name, position⟩ :: rest) e := by
  cases rest with
  | nil =>
    cases h
    exact Or.inl rfl
  | cons next rest =>
    rw [plainName] at h
    split at h
    · cases h
      have hnext : [⟨.identifier name, position⟩, next] <:+:
          ⟨.identifier name, position⟩ :: next :: rest := (List.prefix_append [_, next] rest).isInfix
      exact (ParseError.About.functionWithoutCall hnext).concerns
    · cases h

theorem concerns_of_checkedCall {name : Text} {f : Builtin} {args : List Expr}
    (h : checkedCall name f args = .error e) : Concerns ts e := by
  unfold checkedCall at h
  split at h
  · cases h
  · cases h
    exact Or.inl rfl

/-! ## Reader by reader

The recursion is that of the readers. -/

mutual

theorem pointsInto_expression (names : List Text) (ts : List Token) :
    PointsInto ts (answerOf (expression names ts)) := by
  rw [answerOf_expression]
  refine (pointsInto_term names ts).andThen fun left names rest h => ?_
  have hlt : rest.length < ts.length := Yields.property h
  exact pointsInto_sums left names rest
termination_by 6 * ts.length + 4

theorem pointsInto_sums (left : Expr) (names : List Text) (ts : List Token) :
    PointsInto ts (answerOf (sums left names ts)) := by
  match ts with
  | [] =>
    rw [sums]
    exact List.suffix_rfl
  | token :: us =>
    rw [answerOf_sums]
    cases sumOperator? token.lexeme with
    | none => exact List.suffix_rfl
    | some op =>
      refine PointsInto.mono ?_ (List.suffix_cons token us)
      refine (pointsInto_term names us).andThen fun right names rest h => ?_
      have hlt : rest.length < us.length := Yields.property h
      exact pointsInto_sums (.binary op left right) names rest
termination_by 6 * ts.length

theorem pointsInto_term (names : List Text) (ts : List Token) :
    PointsInto ts (answerOf (term names ts)) := by
  rw [answerOf_term]
  refine (pointsInto_unary names ts).andThen fun left names rest h => ?_
  have hlt : rest.length < ts.length := Yields.property h
  exact pointsInto_products left names rest
termination_by 6 * ts.length + 3

theorem pointsInto_products (left : Expr) (names : List Text) (ts : List Token) :
    PointsInto ts (answerOf (products left names ts)) := by
  match ts with
  | [] =>
    rw [products]
    exact List.suffix_rfl
  | token :: us =>
    rw [answerOf_products]
    cases productOperator? token.lexeme with
    | none => exact List.suffix_rfl
    | some op =>
      refine PointsInto.mono ?_ (List.suffix_cons token us)
      refine (pointsInto_unary names us).andThen fun right names rest h => ?_
      have hlt : rest.length < us.length := Yields.property h
      exact pointsInto_products (.binary op left right) names rest
termination_by 6 * ts.length

theorem pointsInto_unary (names : List Text) (ts : List Token) :
    PointsInto ts (answerOf (unary names ts)) := by
  match ts with
  | [] =>
    rw [unary]
    exact pointsInto_power names []
  | token :: us =>
    rw [answerOf_unary]
    cases sign? token.lexeme with
    | none => exact pointsInto_power names (token :: us)
    | some s =>
      refine PointsInto.mono ?_ (List.suffix_cons token us)
      exact (pointsInto_unary names us).andThen fun operand names rest _ => List.suffix_rfl
termination_by 6 * ts.length + 2

theorem pointsInto_power (names : List Text) (ts : List Token) :
    PointsInto ts (answerOf (power names ts)) := by
  rw [answerOf_power]
  refine (pointsInto_primary names ts).andThen fun base names rest h => ?_
  have hlt : rest.length < ts.length := Yields.property h
  cases hc : after? .caret rest with
  | none => exact List.suffix_rfl
  | some next =>
    obtain ⟨next, hnext⟩ := next
    refine PointsInto.mono ?_ (suffix_of_after? hc)
    exact (pointsInto_unary names next).andThen fun exponent names last _ => List.suffix_rfl
termination_by 6 * ts.length + 1

theorem pointsInto_primary (names : List Text) (ts : List Token) :
    PointsInto ts (answerOf (primary names ts)) := by
  match ts with
  | [] =>
    rw [primary]
    exact Or.inl rfl
  | ⟨.number x, position⟩ :: us =>
    rw [primary]
    exact List.suffix_cons _ _
  | ⟨.finish, position⟩ :: us =>
    rw [primary]
    exact (ParseError.About.unexpectedEnd List.mem_cons_self).concerns
  | ⟨.symbol s, position⟩ :: us =>
    by_cases hs : s = .openParen
    · subst hs
      rw [answerOf_group]
      refine PointsInto.mono ?_ (List.suffix_cons _ us)
      refine (pointsInto_expression names us).andThen fun inner names rest _ => ?_
      exact pointsInto_afterClose fun last => List.suffix_rfl
    · rw [primary]
      dsimp only
      rw [if_neg hs]
      exact (ParseError.About.unexpectedToken List.mem_cons_self).concerns
  | ⟨.identifier name, position⟩ :: us =>
    cases ho : after? .openParen us with
    | none =>
      rw [answerOf_name _ _ ho]
      cases hplain : plainName name us with
      | error e => exact concerns_of_plainName hplain
      | ok e => exact List.suffix_cons _ us
    | some start =>
      obtain ⟨start, hstart⟩ := start
      obtain ⟨opening, rfl⟩ := after?_eq_some_iff.1 ⟨hstart, ho⟩
      rw [answerOf_call]
      cases Builtin.find? name with
      | none => exact (ParseError.About.unknownFunction List.mem_cons_self).concerns
      | some f =>
        have hsuffix : start <:+
            ⟨.identifier name, position⟩ :: ⟨.symbol .openParen, opening⟩ :: start :=
          List.suffix_append [_, _] start
        refine PointsInto.mono ?_ hsuffix
        refine (pointsInto_arguments names start).andThen fun args names rest _ => ?_
        refine pointsInto_afterClose fun last => ?_
        cases hcall : checkedCall name f args with
        | error e => exact concerns_of_checkedCall hcall
        | ok e => exact List.suffix_rfl
termination_by 6 * ts.length

theorem pointsInto_arguments (names : List Text) (ts : List Token) :
    PointsInto ts (answerOf (arguments names ts)) := by
  rw [answerOf_arguments]
  cases after? .closeParen ts with
  | some rest => exact List.suffix_rfl
  | none => exact pointsInto_expressions names ts
termination_by 6 * ts.length + 6

theorem pointsInto_expressions (names : List Text) (ts : List Token) :
    PointsInto ts (answerOf (expressions names ts)) := by
  rw [answerOf_expressions]
  refine (pointsInto_expression names ts).andThen fun first names rest h => ?_
  have hlt : rest.length < ts.length := Yields.property h
  unfold furtherArguments
  cases hc : after? .comma rest with
  | none => exact List.suffix_rfl
  | some next =>
    obtain ⟨next, hnext⟩ := next
    refine PointsInto.mono ?_ (suffix_of_after? hc)
    exact (pointsInto_expressions names next).andThen fun others names last _ => List.suffix_rfl
termination_by 6 * ts.length + 5

end

end Parser

/-! ## Whole texts -/

open ParseError (Concerns)

theorem concerns_of_atEnd {ts : List Token} {e : ParseError} (h : atEnd ts = .error e) :
    Concerns ts e := by
  cases ts with
  | nil =>
    cases h
    exact Or.inl rfl
  | cons token rest =>
    obtain ⟨lexeme, position⟩ := token
    cases lexeme with
    | finish => cases h
    | number | identifier | symbol =>
      cases h
      exact (ParseError.About.unexpectedToken List.mem_cons_self).concerns

theorem concerns_of_parseTokens {ts : List Token} {e : ParseError} (h : parseTokens ts = .error e) :
    Concerns ts e := by
  have hexpr := Parser.pointsInto_expression [] ts
  unfold parseTokens compileTokens at h
  cases hread : Parser.expression [] ts with
  | error e' =>
    rw [hread] at h hexpr
    cases h
    exact hexpr
  | ok answer =>
    obtain ⟨expr, names, rest, hlt⟩ := answer
    rw [hread] at h hexpr
    dsimp only at h
    cases hend : atEnd rest with
    | error e' =>
      rw [hend] at h
      cases h
      exact (concerns_of_atEnd hend).mono hexpr
    | ok u =>
      rw [hend] at h
      cases h

/-- The position in a complaint is that of a unit at which no token begins, or of the token that the
complaint is about. -/
theorem exists_token_of_parse_error {t : Text} {e : ParseError} {position : Nat}
    (h : parse t = .error e) (hp : e.position? = some position) :
    (∃ u, e = .unexpectedUnit u position ∧ tokenize t = .error ⟨u, position⟩) ∨
    ∃ ts token, tokenize t = .ok ts ∧ e.About ts token ∧ token.position = position := by
  rw [parse_eq] at h
  split at h
  · cases h
    cases hp
  · split at h
    · rename_i err herr
      cases h
      cases hp
      exact Or.inl ⟨_, rfl, herr⟩
    · rename_i ts hts
      rcases concerns_of_parseTokens h with hnone | ⟨token, habout⟩
      · rw [hnone] at hp
        cases hp
      · refine Or.inr ⟨ts, token, hts, habout, ?_⟩
        rw [habout.position_eq] at hp
        exact Option.some.inj hp

end VirtualChannels.Formula
