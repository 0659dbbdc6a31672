import VirtualChannels.Text.Basic
import VirtualChannels.Number.Numeral
import VirtualChannels.Number.Decimal

/-
  The tokens of a formula. Blanks separate them; a numeral or an identifier is as long as it
  can be; the list ends in one token that marks the end of the text.
-/

namespace VirtualChannels.Formula

inductive Symbol where
  | plus | minus | star | slash | caret | openParen | closeParen | comma
  deriving DecidableEq

namespace Symbol

def all : List Symbol := [plus, minus, star, slash, caret, openParen, closeParen, comma]

def unit : Symbol → CodeUnit
  | plus => 0x2B
  | minus => 0x2D
  | star => 0x2A
  | slash => 0x2F
  | caret => 0x5E
  | openParen => 0x28
  | closeParen => 0x29
  | comma => 0x2C

def ofUnit? (u : CodeUnit) : Option Symbol := all.find? fun s => s.unit == u

/-- The word for the kind of token in messages. -/
def word : Symbol → Text
  | plus => "PLUS"
  | minus => "MINUS"
  | star => "STAR"
  | slash => "SLASH"
  | caret => "CARET"
  | openParen => "LPAREN"
  | closeParen => "RPAREN"
  | comma => "COMMA"

end Symbol

inductive Lexeme where
  | number (x : Float)
  | identifier (name : Text)
  | symbol (s : Symbol)
  | finish

namespace Lexeme

/-- The word for the kind of token in messages. -/
def word : Lexeme → Text
  | number _ => "NUMBER"
  | identifier _ => "IDENTIFIER"
  | symbol s => s.word
  | finish => "EOF"

/-- The token as messages show it: a number by its value, the end as nothing. -/
def shown : Lexeme → Text
  | number x => Number.text x
  | identifier name => name
  | symbol s => [s.unit]
  | finish => []

/-- What stands at the start of a text that begins with `u`, and how many units after `u`
belong to it. -/
def first? (u : CodeUnit) (rest : Text) : Option (Lexeme × Nat) :=
  match Symbol.ofUnit? u with
  | some s => some (.symbol s, 0)
  | none =>
    let length := Numeral.length (u :: rest)
    if length ≠ 0 then
      some (.number (Decimal.read ((u :: rest).take length)).toFloat, length - 1)
    else if u.startsIdentifier then
      let tail := rest.takeWhile CodeUnit.continuesIdentifier
      some (.identifier (u :: tail), tail.length)
    else none

end Lexeme

structure Token where
  lexeme : Lexeme
  position : Nat

/-- A unit at which no token and no blank begins. -/
structure UnexpectedUnit where
  unit : CodeUnit
  position : Nat

/-- The tokens of a text that starts at a position. -/
def tokenizeFrom (position : Nat) : Text → Except UnexpectedUnit (List Token)
  | [] => .ok [⟨.finish, position⟩]
  | u :: rest =>
    if u.isBlank then tokenizeFrom (position + 1) rest
    else
      match Lexeme.first? u rest with
      | none => .error ⟨u, position⟩
      | some (lexeme, more) =>
        match tokenizeFrom (position + 1 + more) (rest.drop more) with
        | .error e => .error e
        | .ok tokens => .ok (⟨lexeme, position⟩ :: tokens)
termination_by t => t.length
decreasing_by all_goals simp only [List.length_cons, List.length_drop]; omega

def tokenize (t : Text) : Except UnexpectedUnit (List Token) := tokenizeFrom 0 t

end VirtualChannels.Formula
