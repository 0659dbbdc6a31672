import VirtualChannels.Assignment
import VirtualChannels.Reference.Basic

/-
  Finding the references in a formula. The text is cut into segments from left to right: a
  quoted name with its suffix, a numeral, an identifier with its suffix, or a single unit. The
  segments put together are the text again; those that are references are its occurrences.
-/

namespace VirtualChannels

inductive Segment where
  | plain (text : Text)
  | reference (r : Reference)

namespace Segment

def text : Segment → Text
  | plain t => t
  | reference r => r.matched

def reference? : Segment → Option Reference
  | plain _ => none
  | reference r => some r

def quotationMark : CodeUnit := 0x22

/-- The segment that a quotation mark begins: a lone mark, an empty pair, or a quoted name. -/
def quoted (rest : Text) : Segment :=
  let name := rest.takeWhile (· ≠ quotationMark)
  match rest.drop name.length with
  | [] => plain [quotationMark]
  | _ :: tail =>
    if name = [] then plain [quotationMark, quotationMark]
    else
      let suffix := Shift.suffix tail
      reference ⟨name, suffix.shift, Text.quoted name ++ tail.take suffix.length, none⟩

/-- The segment of an identifier and what follows it. A reserved name is no reference, but its
suffix belongs to it all the same. -/
def named (options : ScanOptions) (identifier tail : Text) : Segment :=
  let suffix := Shift.suffix tail
  let matched := identifier ++ tail.take suffix.length
  if options.isReserved identifier then plain matched
  else
    match options.statistic? identifier with
    | some (statistic, name) => reference ⟨name, .none, matched, some statistic⟩
    | none => reference ⟨identifier, suffix.shift, matched, none⟩

/-- The segment at the start of a text that begins with `u`. -/
def first (options : ScanOptions) (u : CodeUnit) (rest : Text) : Segment :=
  if u = quotationMark then quoted rest
  else if u.isDigit || u == Decimal.point then
    plain (u :: rest.take (Numeral.length (u :: rest) - 1))
  else if u.startsIdentifier then
    let more := rest.takeWhile CodeUnit.continuesIdentifier
    named options (u :: more) (rest.drop more.length)
  else plain [u]

end Segment

def segments (options : ScanOptions) : Text → List Segment
  | [] => []
  | u :: rest =>
    let segment := Segment.first options u rest
    segment :: segments options (rest.drop (segment.text.length - 1))
termination_by t => t.length
decreasing_by simp only [List.length_cons, List.length_drop]; omega

/-- A reference and the span of the text that it fills. -/
structure Occurrence where
  reference : Reference
  start : Nat
  stop : Nat

namespace Occurrence

/-- The references among segments that begin at a position. -/
def ofSegments (position : Nat) : List Segment → List Occurrence
  | [] => []
  | segment :: rest =>
    let stop := position + segment.text.length
    match segment with
    | .plain _ => ofSegments stop rest
    | .reference r => ⟨r, position, stop⟩ :: ofSegments stop rest

end Occurrence

/-- Every reference of a formula with its span, in text order. -/
def occurrences (options : ScanOptions) (formula : Text) : List Occurrence :=
  Occurrence.ofSegments 0 (segments options formula)

namespace Reference

/-- Puts a reference behind all that are matched by a text at least as long. -/
def insertByLength (r : Reference) : List Reference → List Reference
  | [] => [r]
  | s :: rest =>
    if s.matched.length < r.matched.length then r :: s :: rest
    else s :: insertByLength r rest

/-- Longest matched text first, ties in the order given. -/
def longestFirst (rs : List Reference) : List Reference :=
  rs.foldl (fun sorted r => insertByLength r sorted) []

/-- The references without those whose matched text came before. -/
def distinct : List Reference → List Reference
  | [] => []
  | r :: rest => r :: (distinct rest).filter fun s => s.matched ≠ r.matched

/-- The distinct names that references read, in their order. -/
def distinctNames (rs : List Reference) : List Text := (rs.map Reference.name).eraseDups

end Reference

/-- The distinct references of a formula, longest matched text first. -/
def references (options : ScanOptions) (formula : Text) : List Reference :=
  Reference.longestFirst
    (Reference.distinct ((segments options formula).filterMap Segment.reference?))

/-! ## Identifiers

The text of a reference is made an identifier by an underscore for every character that is neither
letter nor digit; texts that come out alike are told apart by a number. -/

namespace Text

def underscore : CodeUnit := 0x5F

/-- A letter or digit as it is, any other character as one underscore. -/
def underscored : Text → Text
  | [] => []
  | [u] => [if u.isLetter || u.isDigit then u else underscore]
  | u :: v :: rest =>
    if u.isHighSurrogate && v.isLowSurrogate then underscore :: underscored rest
    else (if u.isLetter || u.isDigit then u else underscore) :: underscored (v :: rest)

/-- The identifier of a text; one that is empty or begins with a digit gets a letter in front. -/
def toIdentifier (t : Text) : Text :=
  let identifier := underscored t
  if identifier.head?.all CodeUnit.isDigit then Text.join ["v_", identifier] else identifier

end Text

namespace Identifier

/-- The identifier with a number behind it. -/
def numbered (base : Text) (n : Nat) : Text := base ++ Text.underscore :: Decimal.digitText n

/-- The identifier itself, then with the numbers from 2 on, one more text than are in use. -/
def candidates (base : Text) (used : Nat) : List Text :=
  base :: (List.range used).map fun n => numbered base (n + 2)

/-- The first candidate that is not in use. -/
def fresh (used : List Text) (base : Text) : Text :=
  ((candidates base used.length).find? fun c => !used.contains c).getD base

/-- One more matched text with its identifier, unless it has one. -/
def assignOne (assigned : Assignment Text) (matched : Text) : Assignment Text :=
  match assigned.get? matched with
  | some _ => assigned
  | none => assigned ++ [(matched, fresh (assigned.map Prod.snd) matched.toIdentifier)]

/-- An identifier for every distinct matched text, in order of first appearance. -/
def assign (matched : List Text) : Assignment Text := matched.foldl assignOne []

end Identifier

/-- A formula in which every reference has been replaced by an identifier. -/
structure Substituted where
  text : Text
  references : List Reference
  identifiers : Assignment Text

/-- The text of a segment with its identifier in the place of a reference. -/
def Segment.replaced (identifiers : Assignment Text) : Segment → Text
  | .plain t => t
  | .reference r => (identifiers.get? r.matched).getD r.matched.toIdentifier

def substitute (options : ScanOptions) (formula : Text) : Substituted :=
  let refs := references options formula
  let identifiers := Identifier.assign (refs.map Reference.matched)
  ⟨(segments options formula).flatMap (Segment.replaced identifiers), refs, identifiers⟩

end VirtualChannels
