import VirtualChannels.Number.Double
import VirtualChannels.Reference.Basic

/-
  Statistics of one column, over its finite samples in row order. Missing and other samples
  do not count; without any sample all statistics are zero.
-/

namespace VirtualChannels

variable {α : Type}

/-- Rows of samples; a row may be shorter than others. -/
abbrev Table (α : Type) := Array (Array α)

namespace Table

def cell? (data : Table α) (row column : Nat) : Option α := data[row]?.bind fun r => r[column]?

end Table

structure Summary (α : Type) where
  mean : α
  /-- The sum of the squared deviations over one less than the count. -/
  variance : α
  min : α
  max : α
  range : α

section
variable [Scalar α]

/-- The finite samples of a column. -/
def Table.samples (data : Table α) (column : Nat) : List α :=
  data.toList.filterMap fun row =>
    row[column]?.bind fun x => if Scalar.isFinite x then some x else none

namespace Samples

def sum (xs : List α) : α := xs.foldl Scalar.add Scalar.zero

def mean (xs : List α) : α := Scalar.divideBy (sum xs) xs.length

def squaredDeviation (center x : α) : α :=
  Scalar.mul (Scalar.sub x center) (Scalar.sub x center)

/-- Zero for a single sample. -/
def variance (xs : List α) : α :=
  if 1 < xs.length then Scalar.divideBy (sum (xs.map (squaredDeviation (mean xs)))) (xs.length - 1)
  else Scalar.zero

def least (first : α) (xs : List α) : α :=
  xs.foldl (fun m x => if Scalar.less x m then x else m) first

def greatest (first : α) (xs : List α) : α :=
  xs.foldl (fun m x => if Scalar.less m x then x else m) first

end Samples

namespace Summary

def zero : Summary α := ⟨Scalar.zero, Scalar.zero, Scalar.zero, Scalar.zero, Scalar.zero⟩

def ofSamples : List α → Summary α
  | [] => zero
  | x :: xs =>
    let min := Samples.least x xs
    let max := Samples.greatest x xs
    ⟨Samples.mean (x :: xs), Samples.variance (x :: xs), min, max, Scalar.sub max min⟩

def ofColumn (data : Table α) (column : Nat) : Summary α := ofSamples (data.samples column)

end Summary

end

namespace Summary

/-- The standard deviation is the root of the variance. -/
def value? (s : Summary Float) : Statistic → Option Float
  | .mean => some s.mean
  | .stdev => some s.variance.sqrt
  | .min => some s.min
  | .max => some s.max
  | .range => some s.range
  | .other _ => none

end Summary

/-! ## Two passes

The first pass counts and sums the finite samples and keeps the least and the greatest, the
second one sums the squared deviations from the mean; each of them finds out by itself which
cells count. -/

/-- What the first pass has come to. -/
structure Tally where
  count : Nat := 0
  total : Float := 0.0
  min : Float := Number.infinity
  max : Float := Number.withSign true Number.infinityBits

namespace Tally

/-- The tally with one more sample. -/
def add (t : Tally) (x : Float) : Tally where
  count := t.count + 1
  total := t.total + x
  min := if x < t.min then x else t.min
  max := if t.max < x then x else t.max

/-- The tally after one more row, which may be too short or have a cell that does not count. -/
def step (column : Nat) (t : Tally) (row : Array Float) : Tally :=
  match row[column]? with
  | none => t
  | some x => if Number.isFinite x then t.add x else t

def ofRows (data : Table Float) (column : Nat) : Tally := data.foldl (step column) {}

def mean (t : Tally) : Float := t.total / Float.ofNat t.count

end Tally

/-- The sum of the squared deviations after one more row. -/
def squaresStep (center : Float) (column : Nat) (squares : Float) (row : Array Float) : Float :=
  match row[column]? with
  | none => squares
  | some x =>
    if Number.isFinite x then squares + Samples.squaredDeviation center x else squares

/-- The statistics of a column in two passes. -/
def Summary.inTwoPasses (data : Table Float) (column : Nat) : Summary Float :=
  let tally := Tally.ofRows data column
  if tally.count = 0 then .zero
  else
    { mean := tally.mean
      variance :=
        if 1 < tally.count then
          data.foldl (squaresStep tally.mean column) 0.0 / Float.ofNat (tally.count - 1)
        else 0.0
      min := tally.min
      max := tally.max
      range := tally.max - tally.min }

end VirtualChannels
