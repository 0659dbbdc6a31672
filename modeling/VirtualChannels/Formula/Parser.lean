import VirtualChannels.Formula.Expr
import VirtualChannels.Formula.Token

/-
  The grammar of formulas, by recursive descent over the tokens.

    expression  a term, then any number of `+` or `-` and a term
    term        a unary, then any number of `*` or `/` and a unary
    unary       `-` or `+` and a unary, or a power
    power       a primary, optionally `^` and a unary
    primary     a number, a name, a call, or an expression in parentheses
    call        a function name and its arguments in parentheses
    arguments   an expression, then any number of `,` and an expression

  Sums and products associate to the left and powers to the right; a power binds tighter than
  a sign before it. As they go, the readers note each name that is neither called nor the name of a
  function; one that has been noted before is not noted again. Every reader returns the names noted
  so far and the tokens it leaves, which are fewer than it got.
-/

namespace VirtualChannels.Formula

inductive ParseError where
  | blank
  | unexpectedUnit (u : CodeUnit) (position : Nat)
  | expectedCloseParen (found : Lexeme) (position : Nat)
  | unexpectedToken (found : Lexeme) (position : Nat)
  | unexpectedEnd (position : Nat)
  | functionWithoutCall (name : Text) (position : Nat)
  | unknownFunction (name : Text) (position : Nat)
  | argumentCount (name : Text) (function : Builtin) (found : Nat)
  | noEnd

namespace ParseError

def atPosition (position : Nat) : Text := Text.join [" at position ", Decimal.digitText position]

def argumentRange (f : Builtin) : Text :=
  match f.mostArguments with
  | none => Text.join ["at least ", Decimal.digitText f.fewestArguments]
  | some most =>
    if most = f.fewestArguments then Decimal.digitText most
    else Text.join [Decimal.digitText f.fewestArguments, "-", Decimal.digitText most]

def message : ParseError → Text
  | blank => "Expression is empty"
  | unexpectedUnit u position =>
    Text.join ["Unexpected character ", Text.quoted [u], atPosition position]
  | expectedCloseParen found position =>
    Text.join ["Expected RPAREN but got ", found.word, atPosition position]
  | unexpectedToken found position =>
    Text.join ["Unexpected token ", found.shown.quoted, atPosition position]
  | unexpectedEnd position => Text.join ["Unexpected end of expression", atPosition position]
  | functionWithoutCall name position =>
    Text.join ["Expected '(' after function name ", name.quoted, atPosition position]
  | unknownFunction name position =>
    Text.join ["Unknown function ", name.quoted, atPosition position, ". Supported: ",
      Text.joinWith ", " (Builtin.all.map Builtin.name)]
  | argumentCount name function found =>
    Text.join ["Function ", name.quoted, " expects ", argumentRange function,
      " argument(s) but got ", Decimal.digitText found]
  | noEnd => "Tokens without an end"

end ParseError

namespace Parser

/-- Tokens that are fewer than the given ones. -/
abbrev Rest (ts : List Token) := { rest : List Token // rest.length < ts.length }

/-- Tokens that are no more than the given ones. -/
abbrev UpTo (ts : List Token) := { rest : List Token // rest.length ≤ ts.length }

/-- The operator of a sum, if the lexeme is one. -/
def sumOperator? : Lexeme → Option Operator
  | .symbol .plus => some .add
  | .symbol .minus => some .sub
  | _ => none

/-- The operator of a product, if the lexeme is one. -/
def productOperator? : Lexeme → Option Operator
  | .symbol .star => some .mul
  | .symbol .slash => some .div
  | _ => none

def sign? : Lexeme → Option Sign
  | .symbol .plus => some .plus
  | .symbol .minus => some .minus
  | _ => none

/-- What follows a symbol that comes next. -/
def after? (s : Symbol) : (ts : List Token) → Option (Rest ts)
  | [] => none
  | token :: rest =>
    match token.lexeme with
    | .symbol s' => if s' = s then some ⟨rest, Nat.lt_succ_self _⟩ else none
    | _ => none

/-- The complaint about tokens that do not begin with a closing parenthesis. -/
def notClosed : List Token → ParseError
  | [] => .noEnd
  | token :: _ => .expectedCloseParen token.lexeme token.position

def closeParen (ts : List Token) : Except ParseError (Rest ts) :=
  match after? .closeParen ts with
  | some rest => .ok rest
  | none => .error (notClosed ts)

/-- A name with no argument list after it, which must not be that of a function. -/
def plainName (name : Text) : List Token → Except ParseError Expr
  | [] => .error .noEnd
  | next :: _ =>
    match Builtin.find? name with
    | some _ => .error (.functionWithoutCall name next.position)
    | none => .ok (.name name)

/-- A call, if the function takes that many arguments. -/
def checkedCall (name : Text) (f : Builtin) (args : List Expr) : Except ParseError Expr :=
  if f.accepts args.length then .ok (.call f.name args)
  else .error (.argumentCount name f args.length)

/-- The names with one more, unless it has been noted before. -/
def note (names : List Text) (name : Text) : List Text :=
  if name ∈ names then names else names ++ [name]

mutual

def expression (names : List Text) (ts : List Token) :
    Except ParseError (Expr × List Text × Rest ts) :=
  match term names ts with
  | .error e => .error e
  | .ok (left, names, ⟨rest, h⟩) =>
    match sums left names rest with
    | .error e => .error e
    | .ok (sum, names, ⟨last, h'⟩) => .ok (sum, names, ⟨last, by omega⟩)
termination_by 6 * ts.length + 4

/-- What a left operand becomes with the sums that follow it. -/
def sums (left : Expr) (names : List Text) (ts : List Token) :
    Except ParseError (Expr × List Text × UpTo ts) :=
  match ts with
  | [] => .ok (left, names, ⟨[], Nat.le_refl _⟩)
  | token :: rest =>
    match sumOperator? token.lexeme with
    | none => .ok (left, names, ⟨token :: rest, Nat.le_refl _⟩)
    | some op =>
      match term names rest with
      | .error e => .error e
      | .ok (right, names, ⟨after, h⟩) =>
        match sums (.binary op left right) names after with
        | .error e => .error e
        | .ok (sum, names, ⟨last, h'⟩) =>
          .ok (sum, names, ⟨last, by simp only [List.length_cons]; omega⟩)
termination_by 6 * ts.length

def term (names : List Text) (ts : List Token) : Except ParseError (Expr × List Text × Rest ts) :=
  match unary names ts with
  | .error e => .error e
  | .ok (left, names, ⟨rest, h⟩) =>
    match products left names rest with
    | .error e => .error e
    | .ok (product, names, ⟨last, h'⟩) => .ok (product, names, ⟨last, by omega⟩)
termination_by 6 * ts.length + 3

/-- What a left operand becomes with the products that follow it. -/
def products (left : Expr) (names : List Text) (ts : List Token) :
    Except ParseError (Expr × List Text × UpTo ts) :=
  match ts with
  | [] => .ok (left, names, ⟨[], Nat.le_refl _⟩)
  | token :: rest =>
    match productOperator? token.lexeme with
    | none => .ok (left, names, ⟨token :: rest, Nat.le_refl _⟩)
    | some op =>
      match unary names rest with
      | .error e => .error e
      | .ok (right, names, ⟨after, h⟩) =>
        match products (.binary op left right) names after with
        | .error e => .error e
        | .ok (product, names, ⟨last, h'⟩) =>
          .ok (product, names, ⟨last, by simp only [List.length_cons]; omega⟩)
termination_by 6 * ts.length

def unary (names : List Text) (ts : List Token) : Except ParseError (Expr × List Text × Rest ts) :=
  match ts with
  | [] => power names []
  | token :: rest =>
    match sign? token.lexeme with
    | none => power names (token :: rest)
    | some s =>
      match unary names rest with
      | .error e => .error e
      | .ok (operand, names, ⟨last, h⟩) =>
        .ok (.sign s operand, names, ⟨last, by simp only [List.length_cons]; omega⟩)
termination_by 6 * ts.length + 2

def power (names : List Text) (ts : List Token) : Except ParseError (Expr × List Text × Rest ts) :=
  match primary names ts with
  | .error e => .error e
  | .ok (base, names, ⟨rest, h⟩) =>
    match after? .caret rest with
    | none => .ok (base, names, ⟨rest, h⟩)
    | some ⟨next, h'⟩ =>
      match unary names next with
      | .error e => .error e
      | .ok (exponent, names, ⟨last, h''⟩) =>
        .ok (.binary .pow base exponent, names, ⟨last, by omega⟩)
termination_by 6 * ts.length + 1

def primary (names : List Text) (ts : List Token) :
    Except ParseError (Expr × List Text × Rest ts) :=
  match ts with
  | [] => .error .noEnd
  | token :: rest =>
    match token.lexeme with
    | .number x => .ok (.number x, names, ⟨rest, Nat.lt_succ_self _⟩)
    | .finish => .error (.unexpectedEnd token.position)
    | .symbol s =>
      if s = .openParen then
        match expression names rest with
        | .error e => .error e
        | .ok (inner, names, ⟨after, h⟩) =>
          match closeParen after with
          | .error e => .error e
          | .ok ⟨last, h'⟩ =>
            .ok (.group inner, names, ⟨last, by simp only [List.length_cons]; omega⟩)
      else .error (.unexpectedToken (.symbol s) token.position)
    | .identifier name =>
      match after? .openParen rest with
      | none =>
        match plainName name rest with
        | .error e => .error e
        | .ok e => .ok (e, note names name, ⟨rest, Nat.lt_succ_self _⟩)
      | some ⟨start, h₀⟩ =>
        match Builtin.find? name with
        | none => .error (.unknownFunction name token.position)
        | some f =>
          match arguments names start with
          | .error e => .error e
          | .ok (args, names, ⟨after, h⟩) =>
            match closeParen after with
            | .error e => .error e
            | .ok ⟨last, h'⟩ =>
              match checkedCall name f args with
              | .error e => .error e
              | .ok e => .ok (e, names, ⟨last, by simp only [List.length_cons]; omega⟩)
termination_by 6 * ts.length

/-- The arguments before a closing parenthesis, which stays; there may be none. -/
def arguments (names : List Text) (ts : List Token) :
    Except ParseError (List Expr × List Text × UpTo ts) :=
  match after? .closeParen ts with
  | some _ => .ok ([], names, ⟨ts, Nat.le_refl _⟩)
  | none =>
    match expressions names ts with
    | .error e => .error e
    | .ok (args, names, ⟨rest, h⟩) => .ok (args, names, ⟨rest, Nat.le_of_lt h⟩)
termination_by 6 * ts.length + 6

/-- One expression or more, with commas between them. -/
def expressions (names : List Text) (ts : List Token) :
    Except ParseError (List Expr × List Text × Rest ts) :=
  match expression names ts with
  | .error e => .error e
  | .ok (first, names, ⟨rest, h⟩) =>
    match after? .comma rest with
    | none => .ok ([first], names, ⟨rest, h⟩)
    | some ⟨next, h'⟩ =>
      match expressions names next with
      | .error e => .error e
      | .ok (others, names, ⟨last, h''⟩) => .ok (first :: others, names, ⟨last, by omega⟩)
termination_by 6 * ts.length + 5

end

end Parser

/-- Nothing but the end may be left. -/
def atEnd : List Token → Except ParseError Unit
  | [] => .error .noEnd
  | token :: _ =>
    match token.lexeme with
    | .finish => .ok ()
    | found => .error (.unexpectedToken found token.position)

/-- An expression and the names that were noted when it was read. -/
structure Compiled where
  expr : Expr
  names : List Text

namespace Compiled

def eval (c : Compiled) (scope : Scope) : Except EvalError Float := c.expr.eval scope

end Compiled

/-- The compiled expression that all tokens up to the end make. -/
def compileTokens (ts : List Token) : Except ParseError Compiled :=
  match Parser.expression [] ts with
  | .error e => .error e
  | .ok (e, names, ⟨rest, _⟩) =>
    match atEnd rest with
    | .error err => .error err
    | .ok () => .ok ⟨e, names⟩

/-- The compiled expression that a text holds. -/
def compile (t : Text) : Except ParseError Compiled :=
  if t.isBlank then .error .blank
  else
    match tokenize t with
    | .error e => .error (.unexpectedUnit e.unit e.position)
    | .ok ts => compileTokens ts

/-- The expression that all tokens up to the end make. -/
def parseTokens (ts : List Token) : Except ParseError Expr := (compileTokens ts).map Compiled.expr

/-- The expression a text holds. -/
def parse (t : Text) : Except ParseError Expr := (compile t).map Compiled.expr

/-! ## Checked tokens

What can be wrong with the tokens of a text is a unit at which nothing begins, or a numeral that
reads as no number. Each numeral is checked when it is read, before anything behind it is looked
at. -/

inductive TokenFault where
  | unexpectedUnit (e : UnexpectedUnit)
  | invalidNumber (numeral : Text) (position : Nat)

def TokenFault.message : TokenFault → Text
  | unexpectedUnit e => (ParseError.unexpectedUnit e.unit e.position).message
  | invalidNumber numeral position =>
    Text.join ["Invalid number ", numeral.quoted, ParseError.atPosition position]

/-- Whether the value of the lexeme is no number. -/
def Lexeme.isNaN : Lexeme → Bool
  | number x => x.isNaN
  | _ => false

/-- The tokens of a text that starts at a position, with each number checked. -/
def checkedTokensFrom (position : Nat) : Text → Except TokenFault (List Token)
  | [] => .ok [⟨.finish, position⟩]
  | u :: rest =>
    if u.isBlank then checkedTokensFrom (position + 1) rest
    else
      match Lexeme.first? u rest with
      | none => .error (.unexpectedUnit ⟨u, position⟩)
      | some (lexeme, more) =>
        if lexeme.isNaN then .error (.invalidNumber (u :: rest.take more) position)
        else
          match checkedTokensFrom (position + 1 + more) (rest.drop more) with
          | .error e => .error e
          | .ok tokens => .ok (⟨lexeme, position⟩ :: tokens)
termination_by t => t.length
decreasing_by all_goals simp only [List.length_cons, List.length_drop]; omega

def checkedTokens (t : Text) : Except TokenFault (List Token) := checkedTokensFrom 0 t

end VirtualChannels.Formula
