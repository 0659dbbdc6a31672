import VirtualChannels.Formula.Builtin

/-
  Expressions and their value for given values of their names. A name has the value it is
  bound to, else that of the constant it names; calls and operators evaluate from left to
  right, and a function is looked up before its arguments are evaluated.
-/

namespace VirtualChannels.Formula

inductive Sign where
  | plus | minus
  deriving DecidableEq

def Sign.apply : Sign → Float → Float
  | plus, x => x
  | minus, x => -x

inductive Operator where
  | add | sub | mul | div | pow
  deriving DecidableEq

def Operator.apply : Operator → Float → Float → Float
  | add, x, y => x + y
  | sub, x, y => x - y
  | mul, x, y => x * y
  | div, x, y => x / y
  | pow, x, y => Number.power x y

inductive Expr where
  | number (x : Float)
  | name (n : Text)
  | group (e : Expr)
  | sign (s : Sign) (e : Expr)
  | binary (op : Operator) (left right : Expr)
  | call (function : Text) (args : List Expr)

inductive EvalError where
  | unknownName (name : Text)
  | unknownFunction (name : Text)

def EvalError.message : EvalError → Text
  | unknownName name => Text.join ["Unknown variable ", name.quoted]
  | unknownFunction name => Text.join ["Unknown function ", name.quoted]

/-- The values of the names that have one. -/
abbrev Scope := Text → Option Float

def resolve (scope : Scope) (name : Text) : Option Float :=
  match scope name with
  | some x => some x
  | none => (Constant.find? name).map Constant.value

namespace Expr

mutual

def eval (scope : Scope) : Expr → Except EvalError Float
  | number x => .ok x
  | name n =>
    match resolve scope n with
    | some x => .ok x
    | none => .error (.unknownName n)
  | group e => eval scope e
  | sign s e =>
    match eval scope e with
    | .error err => .error err
    | .ok x => .ok (s.apply x)
  | binary op left right =>
    match eval scope left with
    | .error err => .error err
    | .ok x =>
      match eval scope right with
      | .error err => .error err
      | .ok y => .ok (op.apply x y)
  | call function args =>
    match Builtin.find? function with
    | none => .error (.unknownFunction function)
    | some f =>
      match evalAll scope args with
      | .error err => .error err
      | .ok xs => .ok (f.apply xs)

def evalAll (scope : Scope) : List Expr → Except EvalError (List Float)
  | [] => .ok []
  | e :: es =>
    match eval scope e with
    | .error err => .error err
    | .ok x =>
      match evalAll scope es with
      | .error err => .error err
      | .ok xs => .ok (x :: xs)

end

mutual

/-- The names of the expression from left to right, with repetitions. -/
def names : Expr → List Text
  | number _ => []
  | name n => [n]
  | group e => names e
  | sign _ e => names e
  | binary _ left right => names left ++ names right
  | call _ args => namesAll args

def namesAll : List Expr → List Text
  | [] => []
  | e :: es => names e ++ namesAll es

end

/-- The distinct names in order of first use. -/
def distinctNames (e : Expr) : List Text := e.names.eraseDups

end Expr

end VirtualChannels.Formula
