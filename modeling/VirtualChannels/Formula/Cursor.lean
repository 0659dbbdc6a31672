import VirtualChannels.Formula.Parser

/-
  The parser with one position that moves over the tokens. Six procedures call one another, and
  three loops run in them. How deep the calls may go and how often a loop may run is limited, so
  that what a parse does can be written down before it is known that it ends. A parse keeps a
  record of every call: where the position was when it began, and where it was when it returned.
-/

namespace VirtualChannels.Formula

namespace Cursor

inductive Procedure where
  | expression
  | term
  | unary
  | power
  | primary
  /-- The call of a function whose name has been read at a position of the text. -/
  | functionCall (name : Text) (position : Nat)

/-- A call of a procedure. -/
structure Call where
  procedure : Procedure
  start : Nat
  /-- The position when it returned, unless it failed. -/
  stop? : Option Nat

inductive Halt where
  | complaint (e : ParseError)
  /-- There is no token at the position. -/
  | noToken
  /-- An argument list was to begin, with something else than an opening parenthesis. -/
  | notOpened (found : Lexeme) (position : Nat)
  /-- The calls have gone too deep, or a loop has run too often. -/
  | limit

structure State where
  /-- The index of the current token. -/
  position : Nat
  /-- The names that have been noted. -/
  names : List Text
  /-- The calls that have ended, the latest one first. -/
  calls : List Call

def State.initial : State := ⟨0, [], []⟩

/-- What a part of the parser does: from a state to an answer and the state that it leaves. -/
def Reading (α : Type) : Type := State → Except Halt α × State

namespace Reading

variable {α β : Type}

protected def pure (a : α) : Reading α := fun s => (.ok a, s)

protected def bind (first : Reading α) (next : α → Reading β) : Reading β := fun s =>
  match first s with
  | (.ok a, s') => next a s'
  | (.error h, s') => (.error h, s')

instance : Monad Reading where
  pure := Reading.pure
  bind := Reading.bind

def halt (h : Halt) : Reading α := fun s => (.error h, s)

def complain (e : ParseError) : Reading α := halt (.complaint e)

def note (name : Text) : Reading Unit := fun s =>
  (.ok (), { s with names := Parser.note s.names name })

/-- A reading as a call of a procedure, which is recorded when it ends. -/
def recorded (p : Procedure) (body : Reading α) : Reading α := fun s =>
  match body s with
  | (.ok a, s') => (.ok a, { s' with calls := ⟨p, s.position, some s'.position⟩ :: s'.calls })
  | (.error h, s') => (.error h, { s' with calls := ⟨p, s.position, none⟩ :: s'.calls })

end Reading

open Reading

/-! ## One token -/

variable (tokens : List Token)

def current : Reading Token := fun s =>
  match tokens[s.position]? with
  | some token => (.ok token, s)
  | none => (.error .noToken, s)

/-- The current token, which the position leaves behind unless it is the end. -/
def advance : Reading Token := do
  let token ← current tokens
  match token.lexeme with
  | .finish => return token
  | _ => fun s => (.ok token, { s with position := s.position + 1 })

/-- The current token is a symbol. -/
def isNext (symbol : Symbol) : Reading Bool := do
  match (← current tokens).lexeme with
  | .symbol found => return found == symbol
  | _ => return false

/-- The symbol must come next, and is left behind. -/
def expect (symbol : Symbol) (otherwise : Lexeme → Nat → Halt) : Reading Token := do
  if ← isNext tokens symbol then advance tokens
  else
    let token ← current tokens
    halt (otherwise token.lexeme token.position)

def expectCloseParen : Reading Token :=
  expect tokens .closeParen fun found position => .complaint (.expectedCloseParen found position)

/-! ## Loops -/

/-- A loop that runs while something comes next, which each round leaves behind first. -/
def loop {α β : Type} (next? : Lexeme → Option β) (step : α → β → Reading α) : Nat → α → Reading α
  | 0, _ => halt .limit
  | rounds + 1, a => do
    match next? (← current tokens).lexeme with
    | none => return a
    | some b =>
      let _ ← advance tokens
      let a ← step a b
      loop next? step rounds a

def comma? : Lexeme → Option Unit
  | .symbol .comma => some ()
  | _ => none

/-- A left operand with the operator that has been read and the operand after it. -/
def withOperand (operand : Reading Expr) (left : Expr) (op : Operator) : Reading Expr := do
  let right ← operand
  return .binary op left right

/-- One more argument. -/
def withArgument (argument : Reading Expr) (args : List Expr) (_ : Unit) : Reading (List Expr) := do
  let arg ← argument
  return args ++ [arg]

/-- The arguments before a closing parenthesis; there may be none. -/
def arguments (argument : Reading Expr) (rounds : Nat) : Reading (List Expr) := do
  if ← isNext tokens .closeParen then return []
  else
    let first ← argument
    loop tokens comma? (withArgument argument) rounds [first]

/-! ## Procedures -/

/-- What a procedure does, given what the calls in it do and how often a loop in it may run. -/
def body (call : Procedure → Reading Expr) (rounds : Nat) : Procedure → Reading Expr
  | .expression => do
    let left ← call .term
    loop tokens Parser.sumOperator? (withOperand (call .term)) rounds left
  | .term => do
    let left ← call .unary
    loop tokens Parser.productOperator? (withOperand (call .unary)) rounds left
  | .unary => do
    match Parser.sign? (← current tokens).lexeme with
    | none => call .power
    | some s =>
      let _ ← advance tokens
      let operand ← call .unary
      return .sign s operand
  | .power => do
    let base ← call .primary
    if ← isNext tokens .caret then
      let _ ← advance tokens
      let exponent ← call .unary
      return .binary .pow base exponent
    else return base
  | .primary => do
    let token ← current tokens
    match token.lexeme with
    | .number x =>
      let _ ← advance tokens
      return .number x
    | .identifier name =>
      let _ ← advance tokens
      if ← isNext tokens .openParen then call (.functionCall name token.position)
      else
        match Builtin.find? name with
        | some _ =>
          let next ← current tokens
          complain (.functionWithoutCall name next.position)
        | none =>
          note name
          return .name name
    | .symbol s =>
      if s = .openParen then
        let _ ← advance tokens
        let inner ← call .expression
        let _ ← expectCloseParen tokens
        return .group inner
      else complain (.unexpectedToken (.symbol s) token.position)
    | .finish => complain (.unexpectedEnd token.position)
  | .functionCall name position => do
    match Builtin.find? name with
    | none => complain (.unknownFunction name position)
    | some f =>
      let _ ← expect tokens .openParen .notOpened
      let args ← arguments tokens (call .expression) rounds
      let _ ← expectCloseParen tokens
      match Parser.checkedCall name f args with
      | .error e => complain e
      | .ok e => return e

/-- A call of a procedure, in which calls may go to a certain depth. -/
def call : Nat → Procedure → Reading Expr
  | 0, p => recorded p (halt .limit)
  | depth + 1, p => recorded p (body tokens (call depth) depth p)

/-- The expression that all tokens up to the end make. -/
def parse (depth : Nat) : Reading Expr := do
  let e ← call tokens depth .expression
  let token ← current tokens
  match token.lexeme with
  | .finish => return e
  | found => complain (.unexpectedToken found token.position)

/-- A depth that no parse of the tokens goes beyond. -/
def enough : Nat := 5 * tokens.length + 4

/-- The compiled expression that a text holds. -/
def compile (t : Text) : Except Halt Compiled :=
  if t.isBlank then .error (.complaint .blank)
  else
    match tokenize t with
    | .error e => .error (.complaint (.unexpectedUnit e.unit e.position))
    | .ok ts =>
      match parse ts (enough ts) .initial with
      | (.error h, _) => .error h
      | (.ok e, s) => .ok ⟨e, s.names⟩

end Cursor

end VirtualChannels.Formula
