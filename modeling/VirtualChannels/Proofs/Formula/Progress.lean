import VirtualChannels.Proofs.Formula.Answers
import VirtualChannels.Proofs.Formula.Limits
import VirtualChannels.Proofs.Formula.Tokens

/-
  The parser with a position ends, on all lists of tokens that end in their only end. A
  procedure begins at a token and returns further on; where it leaves nothing behind before it
  calls another one, that one has a lower rank. So five levels for each token that is left are
  deep enough (`cost`), which every procedure keeps to if the calls in it do (`Progresses`). The
  same induction tells that the answers are those of the readers of tokens (`Follows`).
-/

namespace VirtualChannels.Formula

/-- The tokens end in an end, which is the only one among them. -/
def EndsOnce (tokens : List Token) : Prop :=
  ∃ ls, tokens.map Token.lexeme = ls ++ [.finish] ∧ Lexeme.finish ∉ ls

theorem endsOnce_of_tokenize {t : Text} {tokens : List Token} (h : tokenize t = .ok tokens) :
    EndsOnce tokens := lexemes_of_tokenizeFrom h

theorem EndsOnce.length_pos {tokens : List Token} (h : EndsOnce tokens) : 0 < tokens.length := by
  obtain ⟨ls, hls, -⟩ := h
  have hlength := congrArg List.length hls
  rw [List.length_map, List.length_append, List.length_singleton] at hlength
  omega

/-- Behind a token that is no end there is another one. -/
theorem EndsOnce.succ_lt {tokens : List Token} {token : Token} {i : Nat} (h : EndsOnce tokens)
    (hi : tokens[i]? = some token) (hne : token.lexeme ≠ .finish) : i + 1 < tokens.length := by
  obtain ⟨ls, hls, -⟩ := h
  have hlength := congrArg List.length hls
  rw [List.length_map, List.length_append, List.length_singleton] at hlength
  obtain ⟨hlt, -⟩ := List.getElem?_eq_some_iff.1 hi
  by_contra hnot
  obtain rfl : i = ls.length := by omega
  have hlexeme := congrArg (fun l => l[ls.length]?) hls
  simp only [List.getElem?_map, hi, Option.map_some, List.getElem?_concat_length] at hlexeme
  exact hne (Option.some.inj hlexeme)

namespace Cursor

open VirtualChannels.Formula.Parser (Answer answerOf afterClose furtherArguments)

/-! ## One token -/

variable {tokens : List Token} {s : State} {token : Token}

/-- The call began at one of the tokens, and if it returned, then further on and at one of them. -/
def Call.Advances (tokens : List Token) (call : Call) : Prop :=
  call.start < tokens.length ∧
    ∀ stop, call.stop? = some stop → call.start < stop ∧ stop < tokens.length

/-- The position is that of a token, and every call that has ended has advanced. -/
structure Sound (tokens : List Token) (s : State) : Prop where
  position_lt : s.position < tokens.length
  calls : ∀ call ∈ s.calls, call.Advances tokens

/-- The state with the position at the next token. -/
def State.next (s : State) : State := { s with position := s.position + 1 }

@[simp] theorem State.next_position : s.next.position = s.position + 1 := rfl

theorem Sound.exists_token (hs : Sound tokens s) : ∃ token, tokens[s.position]? = some token :=
  ⟨_, List.getElem?_eq_getElem hs.position_lt⟩

theorem drop_position (h : tokens[s.position]? = some token) :
    tokens.drop s.position = token :: tokens.drop s.next.position := by
  obtain ⟨hlt, rfl⟩ := List.getElem?_eq_some_iff.1 h
  exact List.drop_eq_getElem_cons hlt

/-- The position never goes past the end. -/
theorem Sound.next (hs : Sound tokens s) (hends : EndsOnce tokens)
    (h : tokens[s.position]? = some token) (hne : token.lexeme ≠ .finish) : Sound tokens s.next :=
  ⟨hends.succ_lt h hne, hs.calls⟩

theorem current_eq (h : tokens[s.position]? = some token) :
    current tokens s = (.ok token, s) := by
  unfold current
  rw [h]

open Reading

theorem advance_eq (h : tokens[s.position]? = some token) (hne : token.lexeme ≠ .finish) :
    advance tokens s = (.ok token, s.next) := by
  unfold advance
  rw [bind_of_ok (current_eq h)]
  obtain ⟨lexeme, position⟩ := token
  cases lexeme with
  | finish => exact absurd rfl hne
  | number | identifier | symbol => rfl

theorem isNext_eq_true {symbol : Symbol} {position : Nat}
    (h : tokens[s.position]? = some ⟨.symbol symbol, position⟩) :
    isNext tokens symbol s = (.ok true, s) := by
  unfold isNext
  rw [bind_of_ok (current_eq h)]
  show (Except.ok (symbol == symbol), s) = _
  rw [beq_self_eq_true]

theorem isNext_eq_false {symbol : Symbol} (h : tokens[s.position]? = some token)
    (hne : token.lexeme ≠ .symbol symbol) : isNext tokens symbol s = (.ok false, s) := by
  unfold isNext
  rw [bind_of_ok (current_eq h)]
  obtain ⟨lexeme, position⟩ := token
  cases lexeme with
  | symbol found =>
    have hfalse : (found == symbol) = false := beq_eq_false_iff_ne.2 fun heq => hne (heq ▸ rfl)
    show (Except.ok (found == symbol), s) = _
    rw [hfalse]
  | number | identifier | finish => rfl

/-- Whether a symbol comes next is told alike at the position and by the tokens that are left. -/
theorem Sound.isNext_cases (hs : Sound tokens s) (symbol : Symbol) :
    (∃ position rest, tokens[s.position]? = some ⟨.symbol symbol, position⟩ ∧
      isNext tokens symbol s = (.ok true, s) ∧
      Parser.after? symbol (tokens.drop s.position) = some rest ∧
      rest.1 = tokens.drop s.next.position) ∨
    isNext tokens symbol s = (.ok false, s) ∧
      Parser.after? symbol (tokens.drop s.position) = none := by
  obtain ⟨token, htoken⟩ := hs.exists_token
  rw [drop_position htoken]
  by_cases hsymbol : token.lexeme = .symbol symbol
  · obtain ⟨lexeme, position⟩ := token
    obtain rfl : lexeme = .symbol symbol := hsymbol
    exact Or.inl ⟨position, _, htoken, isNext_eq_true htoken, Parser.after?_symbol _ _ _, rfl⟩
  · exact Or.inr ⟨isNext_eq_false htoken hsymbol, Parser.after?_of_ne hsymbol⟩

section Expect

variable {symbol : Symbol} {otherwise : Lexeme → Nat → Halt}

theorem expect_of_symbol {position : Nat}
    (h : tokens[s.position]? = some ⟨.symbol symbol, position⟩) :
    expect tokens symbol otherwise s = (.ok ⟨.symbol symbol, position⟩, s.next) := by
  unfold expect
  rw [bind_of_ok (isNext_eq_true h)]
  exact advance_eq h (by simp)

theorem expect_of_ne (h : tokens[s.position]? = some token) (hne : token.lexeme ≠ .symbol symbol) :
    expect tokens symbol otherwise s = (.error (otherwise token.lexeme token.position), s) := by
  unfold expect
  rw [bind_of_ok (isNext_eq_false h hne)]
  exact bind_of_ok (current_eq h)

end Expect

/-! ## Following the readers -/

/-- A reading answers what the reader answers. Where it returns, the position is not before a
certain one, and the tokens from there on are those that the reader leaves. -/
inductive Follows {α : Type} (tokens : List Token) (low : Nat) :
    Except Halt α × State → Answer α → Prop
  | returns {a : α} {s : State} (hlow : low ≤ s.position) (hs : Sound tokens s) :
      Follows tokens low (.ok a, s) (.ok (a, s.names, tokens.drop s.position))
  | fails {e : ParseError} {s : State} (hs : Sound tokens s) :
      Follows tokens low (.error (.complaint e), s) (.error e)

namespace Follows

variable {α β : Type} {low low' : Nat}

theorem mono {outcome : Except Halt α × State} {answer : Answer α}
    (h : Follows tokens low outcome answer) (hle : low' ≤ low) :
    Follows tokens low' outcome answer := by
  cases h with
  | returns hlow hs => exact .returns (Nat.le_trans hle hlow) hs
  | fails hs => exact .fails hs

theorem bind {first : Reading α} {next : α → Reading β} {answer : Answer α}
    {after : α → List Text → List Token → Answer β} (h : Follows tokens low (first s) answer)
    (hnext : ∀ a s', low ≤ s'.position → Sound tokens s' →
      Follows tokens low' (next a s') (after a s'.names (tokens.drop s'.position))) :
    Follows tokens low' ((first >>= next) s) (answer.andThen after) := by
  generalize hfirst : first s = outcome at h
  cases h with
  | returns hlow hs =>
    rw [bind_of_ok hfirst]
    exact hnext _ _ hlow hs
  | fails hs =>
    rw [bind_of_error hfirst]
    exact .fails hs

end Follows

section Steps

variable {α β : Type} {low : Nat} (hends : EndsOnce tokens)

include hends

theorem follows_close {next : Reading α} {after : List Token → Answer α} (hs : Sound tokens s)
    (hnext : ∀ s', s.position < s'.position → s'.names = s.names → Sound tokens s' →
      Follows tokens low (next s') (after (tokens.drop s'.position))) :
    Follows tokens low ((expectCloseParen tokens >>= fun _ => next) s)
      (afterClose (tokens.drop s.position) after) := by
  obtain ⟨token, htoken⟩ := hs.exists_token
  unfold afterClose expectCloseParen
  rw [drop_position htoken]
  by_cases hclose : token.lexeme = .symbol .closeParen
  · obtain ⟨lexeme, position⟩ := token
    obtain rfl : lexeme = .symbol .closeParen := hclose
    rw [Parser.closeParen_symbol, bind_of_ok (expect_of_symbol htoken)]
    exact hnext s.next (Nat.lt_succ_self _) rfl (hs.next hends htoken (by simp))
  · rw [Parser.closeParen, Parser.after?_of_ne hclose, bind_of_error (expect_of_ne htoken hclose)]
    exact .fails hs

theorem follows_loop {next? : Lexeme → Option β} {step : α → β → Reading α}
    (stepOf : α → β → List Text → List Token → Answer α)
    {whole : α → List Text → List Token → Answer α} (hfinish : next? .finish = none)
    (hwhole : ∀ a names token ts, whole a names (token :: ts) =
      (next? token.lexeme).elim (.ok (a, names, token :: ts)) fun b =>
        (stepOf a b names ts).andThen whole)
    (hstep : ∀ a b s, low < s.position → Sound tokens s →
      Follows tokens (s.position + 1) (step a b s) (stepOf a b s.names (tokens.drop s.position)))
    {rounds : Nat} (a : α) (hlow : low ≤ s.position) (hs : Sound tokens s)
    (hrounds : tokens.length - s.position ≤ rounds) :
    Follows tokens s.position (loop tokens next? step rounds a s)
      (whole a s.names (tokens.drop s.position)) := by
  induction rounds generalizing a s with
  | zero =>
    have hlt := hs.position_lt
    omega
  | succ rounds ih =>
    obtain ⟨token, htoken⟩ := hs.exists_token
    rw [loop, bind_of_ok (current_eq htoken), drop_position htoken, hwhole]
    cases hnext : next? token.lexeme with
    | none =>
      rw [← drop_position htoken]
      exact .returns (Nat.le_refl _) hs
    | some b =>
      have hne : token.lexeme ≠ .finish := fun heq => by
        rw [heq, hfinish] at hnext
        cases hnext
      have hnexts := hs.next hends htoken hne
      dsimp only
      rw [bind_of_ok (advance_eq htoken hne)]
      refine (hstep a b s.next (Nat.lt_succ_of_le hlow) hnexts).bind fun a' s' hle hs' => ?_
      rw [State.next_position] at hle
      exact (ih a' (by omega) hs' (by omega)).mono (by omega)

end Steps

/-- Arguments are read one after another. -/
theorem furtherArguments_cons (names : List Text) (ts : List Token) (args : List Expr)
    (token : Token) :
    furtherArguments args names (token :: ts) =
      (comma? token.lexeme).elim (.ok (args, names, token :: ts)) fun _ =>
        (answerOf (Parser.expression names ts)).andThen fun arg names rest =>
          furtherArguments (args ++ [arg]) names rest := by
  by_cases hcomma : token.lexeme = .symbol .comma
  · obtain ⟨lexeme, position⟩ := token
    obtain rfl : lexeme = .symbol .comma := hcomma
    rw [furtherArguments, Parser.after?_symbol]
    dsimp only [comma?, Option.elim_some]
    rw [Parser.answerOf_expressions]
    cases answerOf (Parser.expression names ts) with
    | error e => rfl
    | ok answer =>
      obtain ⟨arg, names, rest⟩ := answer
      dsimp only [Parser.Answer.andThen, furtherArguments]
      cases Parser.after? .comma rest with
      | none => rfl
      | some next =>
        dsimp only
        cases answerOf (Parser.expressions names next.1) with
        | error e => rfl
        | ok answer => simp
  · have hnone : comma? token.lexeme = none := by
      unfold comma?
      split
      · contradiction
      · rfl
    rw [furtherArguments, Parser.after?_of_ne hcomma, hnone, Option.elim_none]

/-! ## Procedures -/

/-- What the reader answers that a procedure stands for. The name of a function comes before the
position where its call begins. -/
def Procedure.answer (tokens : List Token) (s : State) : Procedure → Answer Expr
  | .expression => answerOf (Parser.expression s.names (tokens.drop s.position))
  | .term => answerOf (Parser.term s.names (tokens.drop s.position))
  | .unary => answerOf (Parser.unary s.names (tokens.drop s.position))
  | .power => answerOf (Parser.power s.names (tokens.drop s.position))
  | .primary => answerOf (Parser.primary s.names (tokens.drop s.position))
  | .functionCall name position =>
    answerOf (Parser.primary s.names (⟨.identifier name, position⟩ :: tokens.drop s.position))

/-- A call of a function begins at an opening parenthesis. -/
def Procedure.MayStart (tokens : List Token) (s : State) : Procedure → Prop
  | .functionCall _ _ => ∃ position, tokens[s.position]? = some ⟨.symbol .openParen, position⟩
  | _ => True

/-- How many calls may follow one another before a token is left behind. -/
def Procedure.rank : Procedure → Nat
  | .expression => 4
  | .term => 3
  | .unary => 2
  | .power => 1
  | .primary | .functionCall _ _ => 0

/-- The depth that a call needs. -/
def Procedure.cost (tokens : List Token) (s : State) (p : Procedure) : Nat :=
  5 * (tokens.length - s.position) + p.rank

theorem Procedure.rank_le (p : Procedure) : p.rank ≤ 4 := by
  cases p <;> simp [rank]

/-- A call that begins further on needs less depth, whatever procedure it is of. -/
theorem Procedure.cost_le_of_lt {p q : Procedure} {s' : State} {depth : Nat}
    (hs : Sound tokens s) (hlt : s.position < s'.position)
    (hcost : q.cost tokens s ≤ depth + 1) : p.cost tokens s' ≤ depth := by
  have hposition := hs.position_lt
  have hrank := p.rank_le
  unfold cost at hcost ⊢
  omega

/-- Calls that may start and have the depth that they need follow the readers, and make progress. -/
def Progresses (tokens : List Token) (depth : Nat) (call : Procedure → Reading Expr) : Prop :=
  ∀ p s, Sound tokens s → p.MayStart tokens s → p.cost tokens s ≤ depth →
    Follows tokens (s.position + 1) (call p s) (p.answer tokens s)

section Procedures

variable {call : Procedure → Reading Expr} {depth : Nat} (hends : EndsOnce tokens)
  (hcall : Progresses tokens depth call) (hs : Sound tokens s)

include hends hcall hs

/-- Operands with something between them, which are put together from the left. -/
theorem follows_operands {α β : Type} (p : Procedure) {next? : Lexeme → Option β}
    (start : Expr → α) (combine : α → β → Expr → α)
    (operandOf : List Text → List Token → Answer Expr)
    (whole : α → List Text → List Token → Answer α) (hfinish : next? .finish = none)
    (hanswer : ∀ s, p.answer tokens s = operandOf s.names (tokens.drop s.position))
    (hmay : ∀ s, p.MayStart tokens s)
    (hwhole : ∀ a names token ts, whole a names (token :: ts) =
      (next? token.lexeme).elim (.ok (a, names, token :: ts)) fun b =>
        (operandOf names ts).andThen fun e names rest => whole (combine a b e) names rest)
    (hcost : p.cost tokens s ≤ depth) :
    Follows tokens (s.position + 1)
      ((call p >>= fun first => loop tokens next?
        (fun a b => call p >>= fun e => pure (combine a b e)) depth (start first)) s)
      ((operandOf s.names (tokens.drop s.position)).andThen fun first => whole (start first)) := by
  have hlt := hs.position_lt
  unfold Procedure.cost at hcost
  rw [← hanswer]
  refine (hcall p s hs (hmay s) hcost).bind fun first s' hle hs' => ?_
  refine (follows_loop hends (fun a b names ts =>
    (operandOf names ts).andThen fun e names rest => .ok (combine a b e, names, rest))
    hfinish (fun a names token ts => ?_) (fun a b t ht hts => ?_) (start first) hle hs'
    (by omega)).mono hle
  · rw [hwhole]
    congr 1
    funext b
    rw [Parser.Answer.andThen_andThen]
    rfl
  · rw [← hanswer]
    exact (hcall p t hts (hmay t) (by unfold Procedure.cost; omega)).bind
      fun e t' hle' ht' => .returns hle' ht'

theorem follows_expression (hcost : Procedure.expression.cost tokens s ≤ depth + 1) :
    Follows tokens (s.position + 1) (body tokens call depth .expression s)
      (Procedure.expression.answer tokens s) := by
  show Follows _ _ _ (answerOf _)
  rw [Parser.answerOf_expression]
  exact follows_operands hends hcall hs .term id (fun left op right => .binary op left right)
    (fun names ts => answerOf (Parser.term names ts))
    (fun left names ts => answerOf (Parser.sums left names ts)) rfl (fun _ => rfl)
    (fun _ => trivial) (fun left names token ts => Parser.answerOf_sums names ts left token)
    (Nat.le_of_succ_le_succ hcost)

theorem follows_term (hcost : Procedure.term.cost tokens s ≤ depth + 1) :
    Follows tokens (s.position + 1) (body tokens call depth .term s)
      (Procedure.term.answer tokens s) := by
  show Follows _ _ _ (answerOf _)
  rw [Parser.answerOf_term]
  exact follows_operands hends hcall hs .unary id (fun left op right => .binary op left right)
    (fun names ts => answerOf (Parser.unary names ts))
    (fun left names ts => answerOf (Parser.products left names ts)) rfl (fun _ => rfl)
    (fun _ => trivial) (fun left names token ts => Parser.answerOf_products names ts left token)
    (Nat.le_of_succ_le_succ hcost)

theorem follows_unary (hcost : Procedure.unary.cost tokens s ≤ depth + 1) :
    Follows tokens (s.position + 1) (body tokens call depth .unary s)
      (Procedure.unary.answer tokens s) := by
  obtain ⟨token, htoken⟩ := hs.exists_token
  show Follows _ _ ((current tokens >>= _) s) (answerOf _)
  rw [bind_of_ok (current_eq htoken), drop_position htoken, Parser.answerOf_unary]
  cases hsign : Parser.sign? token.lexeme with
  | none =>
    dsimp only
    rw [← drop_position htoken]
    exact hcall .power s hs trivial (Nat.le_of_succ_le_succ hcost)
  | some sign =>
    have hne : token.lexeme ≠ .finish := fun heq => by
      rw [heq] at hsign
      cases hsign
    dsimp only
    rw [bind_of_ok (advance_eq htoken hne)]
    refine (hcall .unary s.next (hs.next hends htoken hne) trivial
      (Procedure.cost_le_of_lt hs (Nat.lt_succ_self _) hcost)).bind fun operand s' hle hs' => ?_
    exact .returns (Nat.le_of_succ_le hle) hs'

theorem follows_power (hcost : Procedure.power.cost tokens s ≤ depth + 1) :
    Follows tokens (s.position + 1) (body tokens call depth .power s)
      (Procedure.power.answer tokens s) := by
  show Follows _ _ ((call .primary >>= _) s) (answerOf _)
  rw [Parser.answerOf_power]
  refine (hcall .primary s hs trivial (Nat.le_of_succ_le_succ hcost)).bind
    fun base s' hle hs' => ?_
  rcases hs'.isNext_cases .caret with ⟨position, rest, htoken, hnext, hafter, hrest⟩ | ⟨hnext, hafter⟩
  · have hne : Lexeme.symbol .caret ≠ .finish := by simp
    rw [hafter, bind_of_ok hnext, if_pos rfl, bind_of_ok (advance_eq htoken hne)]
    dsimp only
    rw [hrest]
    have hlt : s.position < s'.next.position := Nat.lt_succ_of_lt hle
    refine (hcall .unary s'.next (hs'.next hends htoken hne) trivial
      (Procedure.cost_le_of_lt hs hlt hcost)).bind fun exponent s'' hle' hs'' => ?_
    exact .returns (by rw [State.next_position] at hle'; omega) hs''
  · rw [hafter, bind_of_ok hnext]
    exact .returns hle hs'

theorem follows_primary (hcost : Procedure.primary.cost tokens s ≤ depth + 1) :
    Follows tokens (s.position + 1) (body tokens call depth .primary s)
      (Procedure.primary.answer tokens s) := by
  obtain ⟨⟨lexeme, position⟩, htoken⟩ := hs.exists_token
  have hlt : s.position < s.next.position := Nat.lt_succ_self _
  show Follows _ _ ((current tokens >>= _) s) (answerOf _)
  rw [bind_of_ok (current_eq htoken), drop_position htoken]
  cases lexeme with
  | number x =>
    have hne : Lexeme.number x ≠ .finish := by simp
    rw [Parser.primary]
    dsimp only
    rw [bind_of_ok (advance_eq htoken hne)]
    exact .returns hlt (hs.next hends htoken hne)
  | finish =>
    rw [Parser.primary]
    exact .fails hs
  | symbol symbol =>
    have hnext := hs.next hends htoken (by simp)
    dsimp only
    by_cases hopen : symbol = .openParen
    · subst hopen
      rw [if_pos rfl, bind_of_ok (advance_eq htoken (by simp)), Parser.answerOf_group]
      refine (hcall .expression s.next hnext trivial
        (Procedure.cost_le_of_lt hs hlt hcost)).bind fun inner s' hle hs' => ?_
      refine follows_close hends hs' fun s'' hlt' hnames hs'' => ?_
      rw [← hnames]
      exact .returns (by rw [State.next_position] at hle; omega) hs''
    · rw [if_neg hopen, Parser.primary]
      dsimp only
      rw [if_neg hopen]
      exact .fails hs
  | identifier name =>
    have hnext := hs.next hends htoken (by simp)
    dsimp only
    rw [bind_of_ok (advance_eq htoken (by simp))]
    rcases hnext.isNext_cases .openParen with ⟨opening, -, htoken', hopen, -, -⟩ | ⟨hopen, hafter⟩
    · rw [bind_of_ok hopen, if_pos rfl]
      exact (hcall (.functionCall name position) s.next hnext ⟨opening, htoken'⟩
        (Procedure.cost_le_of_lt hs hlt hcost)).mono (Nat.le_succ _)
    · obtain ⟨token, htoken'⟩ := hnext.exists_token
      rw [bind_of_ok hopen, Parser.answerOf_name _ _ hafter, drop_position htoken', Parser.plainName]
      cases Builtin.find? name with
      | some f =>
        show Follows _ _ ((current tokens >>= _) s.next) _
        rw [bind_of_ok (current_eq htoken')]
        exact .fails hnext
      | none =>
        rw [← drop_position htoken']
        exact .returns (s := { s.next with names := Parser.note s.names name }) hlt
          ⟨hnext.position_lt, hnext.calls⟩

theorem follows_arguments (hcost : Procedure.expression.cost tokens s ≤ depth) :
    Follows tokens s.position (arguments tokens (call .expression) depth s)
      (answerOf (Parser.arguments s.names (tokens.drop s.position))) := by
  unfold arguments
  rw [Parser.answerOf_arguments]
  rcases hs.isNext_cases .closeParen with ⟨-, rest, -, hnext, hafter, -⟩ | ⟨hnext, hafter⟩
  · rw [hafter, bind_of_ok hnext]
    exact .returns (Nat.le_refl _) hs
  · rw [hafter, bind_of_ok hnext]
    dsimp only
    rw [Parser.answerOf_expressions]
    refine (follows_operands hends hcall hs .expression (fun e => [e]) (fun args _ e => args ++ [e])
      (fun names ts => answerOf (Parser.expression names ts)) furtherArguments rfl (fun _ => rfl)
      (fun _ => trivial) (fun args names token ts => ?_) hcost).mono (Nat.le_succ _)
    exact furtherArguments_cons names ts args token

theorem follows_functionCall {name : Text} {position : Nat}
    (hmay : (Procedure.functionCall name position).MayStart tokens s)
    (hcost : (Procedure.functionCall name position).cost tokens s ≤ depth + 1) :
    Follows tokens (s.position + 1) (body tokens call depth (.functionCall name position) s)
      ((Procedure.functionCall name position).answer tokens s) := by
  obtain ⟨opening, htoken⟩ := hmay
  have hnext := hs.next hends htoken (by simp)
  show Follows _ _ _ (answerOf _)
  rw [drop_position htoken, Parser.answerOf_call]
  unfold body
  dsimp only
  cases Builtin.find? name with
  | none => exact .fails hs
  | some f =>
    dsimp only
    rw [bind_of_ok (expect_of_symbol htoken)]
    refine (follows_arguments hends hcall hnext
      (Procedure.cost_le_of_lt hs (Nat.lt_succ_self _) hcost)).bind fun args s' hle hs' => ?_
    refine follows_close hends hs' fun s'' hlt hnames hs'' => ?_
    cases Parser.checkedCall name f args with
    | error e => exact .fails hs''
    | ok e =>
      rw [← hnames]
      exact .returns (by rw [State.next_position] at hle; omega) hs''

end Procedures

/-! ## Whole parses -/

/-- The call that a procedure makes is recorded as one that has advanced. -/
theorem Follows.recorded {p : Procedure} {reading : Reading Expr} {answer : Answer Expr}
    (h : Follows tokens (s.position + 1) (reading s) answer) (hs : Sound tokens s) :
    Follows tokens (s.position + 1) (recorded p reading s) answer := by
  unfold Reading.recorded
  generalize reading s = outcome at h
  cases h with
  | returns hlow hs' =>
    refine .returns hlow ⟨hs'.position_lt, fun call hcall => ?_⟩
    rcases List.mem_cons.1 hcall with rfl | hcall
    · refine ⟨hs.position_lt, fun stop hstop => ?_⟩
      cases hstop
      exact ⟨hlow, hs'.position_lt⟩
    · exact hs'.calls call hcall
  | fails hs' =>
    refine .fails ⟨hs'.position_lt, fun call hcall => ?_⟩
    rcases List.mem_cons.1 hcall with rfl | hcall
    · exact ⟨hs.position_lt, fun stop hstop => by cases hstop⟩
    · exact hs'.calls call hcall

theorem progresses_call (hends : EndsOnce tokens) (depth : Nat) :
    Progresses tokens depth (call tokens depth) := by
  induction depth with
  | zero =>
    intro p s hs hmay hcost
    have hlt := hs.position_lt
    unfold Procedure.cost at hcost
    omega
  | succ depth ih =>
    intro p s hs hmay hcost
    refine Follows.recorded ?_ hs
    cases p with
    | expression => exact follows_expression hends ih hs hcost
    | term => exact follows_term hends ih hs hcost
    | unary => exact follows_unary hends ih hs hcost
    | power => exact follows_power hends ih hs hcost
    | primary => exact follows_primary hends ih hs hcost
    | functionCall name position => exact follows_functionCall hends ih hs hmay hcost

/-- What the readers answer about all tokens. -/
def wholeAnswer (tokens : List Token) : Answer Expr :=
  (answerOf (Parser.expression [] tokens)).andThen fun e names rest =>
    match atEnd rest with
    | .error err => .error err
    | .ok () => .ok (e, names, rest)

theorem compileTokens_eq (tokens : List Token) :
    compileTokens tokens = (wholeAnswer tokens).map fun answer => ⟨answer.1, answer.2.1⟩ := by
  unfold compileTokens wholeAnswer
  cases Parser.expression [] tokens with
  | error e => rfl
  | ok answer =>
    obtain ⟨e, names, rest, hrest⟩ := answer
    dsimp only [answerOf, Parser.Answer.andThen]
    cases atEnd rest with
    | error err => rfl
    | ok u => rfl

theorem sound_initial (hends : EndsOnce tokens) : Sound tokens .initial :=
  ⟨hends.length_pos, fun call hcall => by cases hcall⟩

theorem follows_parse (hends : EndsOnce tokens) {depth : Nat} (hdepth : enough tokens ≤ depth) :
    Follows tokens 1 (parse tokens depth .initial) (wholeAnswer tokens) := by
  have hcall := progresses_call hends depth .expression .initial (sound_initial hends) trivial hdepth
  refine hcall.bind fun e s hle hs => ?_
  obtain ⟨⟨lexeme, position⟩, htoken⟩ := hs.exists_token
  rw [bind_of_ok (current_eq htoken), drop_position htoken]
  cases lexeme with
  | finish =>
    dsimp only [atEnd]
    rw [← drop_position htoken]
    exact .returns hle hs
  | number | identifier | symbol => exact .fails hs

/-- No parse with enough depth is stopped by its limit, so more depth makes no difference. -/
theorem parse_of_enough (hends : EndsOnce tokens) {depth : Nat} (hdepth : enough tokens ≤ depth) :
    parse tokens depth .initial = parse tokens (enough tokens) .initial := by
  have hwithin : Within (parse tokens (enough tokens)) (parse tokens depth) :=
    (within_call hdepth .expression).then_same _
  rcases hwithin .initial with hlimit | heq
  · have hfollows := follows_parse hends (Nat.le_refl _)
    generalize wholeAnswer tokens = answer at hfollows
    generalize parse tokens (enough tokens) .initial = outcome at hlimit hfollows
    cases hfollows with
    | returns hlow hs => cases hlimit
    | fails hs => cases hlimit
  · exact heq.symm

/-- A parse of tokens that end in their only end comes to the same outcome however deep its
calls may go and however often its loops may run, once that is enough, so it ends without a
limit. The outcome is what the readers answer, and never that a token was missing. The position
stays at one of the tokens, so the end is not left behind: every call has begun at one of them,
and has either failed or returned further on and at one of them. -/
theorem exists_outcome (hends : EndsOnce tokens) : ∃ answer s,
    (∀ depth, 5 * tokens.length + 4 ≤ depth → parse tokens depth .initial = (answer, s)) ∧
    (match compileTokens tokens with
      | .ok c => answer = .ok c.expr ∧ s.names = c.names
      | .error e => answer = .error (.complaint e)) ∧
    s.position < tokens.length ∧
    ∀ call ∈ s.calls, call.start < tokens.length ∧
      ∀ stop, call.stop? = some stop → call.start < stop ∧ stop < tokens.length := by
  have hfollows := follows_parse hends (Nat.le_refl _)
  have hsame : ∀ depth, enough tokens ≤ depth →
      parse tokens depth .initial = parse tokens (enough tokens) .initial :=
    fun depth hdepth => parse_of_enough hends hdepth
  rw [compileTokens_eq]
  generalize wholeAnswer tokens = answer at hfollows
  generalize parse tokens (enough tokens) .initial = outcome at hfollows hsame
  cases hfollows with
  | returns hlow hs => exact ⟨_, _, hsame, ⟨rfl, rfl⟩, hs.position_lt, hs.calls⟩
  | fails hs => exact ⟨_, _, hsame, rfl, hs.position_lt, hs.calls⟩

/-- The tokens of `max(x,`, an argument list that is cut off. -/
def cutOffCall : List Token :=
  [⟨.identifier "max", 0⟩, ⟨.symbol .openParen, 3⟩, ⟨.identifier "x", 4⟩, ⟨.symbol .comma, 5⟩,
    ⟨.finish, 6⟩]

theorem exists_outcome_cutOffCall : EndsOnce cutOffCall ∧ ∃ answer s,
    (∀ depth, 5 * cutOffCall.length + 4 ≤ depth →
      parse cutOffCall depth .initial = (answer, s)) ∧
    (match compileTokens cutOffCall with
      | .ok c => answer = .ok c.expr ∧ s.names = c.names
      | .error e => answer = .error (.complaint e)) ∧
    s.position < cutOffCall.length ∧
    ∀ call ∈ s.calls, call.start < cutOffCall.length ∧
      ∀ stop, call.stop? = some stop → call.start < stop ∧ stop < cutOffCall.length :=
  have hends : EndsOnce cutOffCall :=
    ⟨[.identifier "max", .symbol .openParen, .identifier "x", .symbol .comma], rfl, by simp⟩
  ⟨hends, exists_outcome hends⟩

example : (parse [⟨.symbol .minus, 0⟩, ⟨.identifier "x", 1⟩, ⟨.finish, 2⟩] 19 .initial).2.calls.map
    (fun call => (call.start, call.stop?)) =
      [(0, some 2), (0, some 2), (0, some 2), (1, some 2), (1, some 2), (1, some 2)] := rfl

/-- A text is compiled as by the readers of tokens. -/
theorem compile_eq (t : Text) :
    compile t = (Formula.compile t).mapError Halt.complaint := by
  unfold compile Formula.compile
  split
  · rfl
  · cases htokens : tokenize t with
    | error e => rfl
    | ok tokens =>
      have hfollows := follows_parse (endsOnce_of_tokenize htokens) (Nat.le_refl _)
      dsimp only
      rw [compileTokens_eq]
      generalize wholeAnswer tokens = answer at hfollows
      generalize parse tokens (enough tokens) .initial = outcome at hfollows
      cases hfollows with
      | returns hlow hs => rfl
      | fails hs => rfl

end Cursor

end VirtualChannels.Formula
