import VirtualChannels.Number.Double
import VirtualChannels.Text.Basic

/-
  The functions and constants a formula may name, in any letter case. Each function has its
  argument counts and its meaning on a list of arguments of any length: one that is missing
  counts as no number, and those past the last one used are passed over.
-/

namespace VirtualChannels.Formula

inductive Builtin where
  | sin | cos | tan | asin | acos | atan | atan2 | sinh | cosh | tanh | asinh | acosh | atanh
  | sqrt | abs | exp | ln | log | log2 | log10 | floor | ceil | round | trunc | fract | signum
  | min | max
  deriving DecidableEq

namespace Builtin

def all : List Builtin :=
  [sin, cos, tan, asin, acos, atan, atan2, sinh, cosh, tanh, asinh, acosh, atanh, sqrt, abs, exp,
    ln, log, log2, log10, floor, ceil, round, trunc, fract, signum, min, max]

def name : Builtin → Text
  | sin => "sin"
  | cos => "cos"
  | tan => "tan"
  | asin => "asin"
  | acos => "acos"
  | atan => "atan"
  | atan2 => "atan2"
  | sinh => "sinh"
  | cosh => "cosh"
  | tanh => "tanh"
  | asinh => "asinh"
  | acosh => "acosh"
  | atanh => "atanh"
  | sqrt => "sqrt"
  | abs => "abs"
  | exp => "exp"
  | ln => "ln"
  | log => "log"
  | log2 => "log2"
  | log10 => "log10"
  | floor => "floor"
  | ceil => "ceil"
  | round => "round"
  | trunc => "trunc"
  | fract => "fract"
  | signum => "signum"
  | min => "min"
  | max => "max"

/-- The function of a name in any letter case. -/
def find? (name : Text) : Option Builtin := all.find? fun f => f.name == name.lowerAscii

def fewestArguments : Builtin → Nat
  | atan2 => 2
  | _ => 1

/-- None where any number of arguments is accepted. -/
def mostArguments : Builtin → Option Nat
  | atan2 => some 2
  | min | max => none
  | _ => some 1

def accepts (f : Builtin) (count : Nat) : Bool :=
  f.fewestArguments ≤ count && (f.mostArguments.all fun most => count ≤ most)

/-- The functions of one number. -/
def applyOne : Builtin → Float → Float
  | sin, x => x.sin
  | cos, x => x.cos
  | tan, x => x.tan
  | asin, x => x.asin
  | acos, x => x.acos
  | atan, x => x.atan
  | sinh, x => x.sinh
  | cosh, x => x.cosh
  | tanh, x => x.tanh
  | asinh, x => x.asinh
  | acosh, x => x.acosh
  | atanh, x => x.atanh
  | sqrt, x => x.sqrt
  | abs, x => x.abs
  | exp, x => x.exp
  | ln, x => x.log
  | log, x => x.log10
  | log2, x => x.log2
  | log10, x => x.log10
  | floor, x => x.floor
  | ceil, x => x.ceil
  | round, x => Number.roundHalfAway x
  | trunc, x => Number.truncate x
  | fract, x => Number.fractionalPart x
  | signum, x => Number.signum x
  | atan2, _ | min, _ | max, _ => Number.notANumber

/-- The value for the arguments. The sign of a missing argument is positive. -/
def apply (f : Builtin) (args : List Float) : Float :=
  match f, args with
  | min, args => Number.least args
  | max, args => Number.greatest args
  | atan2, args =>
    Float.atan2 (args.head?.getD Number.notANumber) (args[1]?.getD Number.notANumber)
  | signum, [] => 1.0
  | f, args => f.applyOne (args.head?.getD Number.notANumber)

end Builtin

inductive Constant where
  | pi | e | tau | phi
  deriving DecidableEq

namespace Constant

def all : List Constant := [pi, e, tau, phi]

def name : Constant → Text
  | pi => "pi"
  | e => "e"
  | tau => "tau"
  | phi => "phi"

def value : Constant → Float
  | pi => 3.141592653589793
  | e => 2.718281828459045
  | tau => 2.0 * 3.141592653589793
  | phi => (1.0 + Float.sqrt 5.0) / 2.0

/-- The constant of a name in any letter case. -/
def find? (name : Text) : Option Constant := all.find? fun c => c.name == name.lowerAscii

end Constant

/-- The names that stand for no channel: functions, then constants. -/
def builtinNames : List Text := Builtin.all.map Builtin.name ++ Constant.all.map Constant.name

end VirtualChannels.Formula
