/-
  Text as a list of UTF-16 code units. Positions and lengths are counted in units, a
  character outside the basic plane is a surrogate pair, and a surrogate may stand alone.
-/

namespace VirtualChannels

abbrev CodeUnit := UInt16

abbrev Text := List CodeUnit

namespace CodeUnit

def isHighSurrogate (u : CodeUnit) : Bool := 0xD800 ≤ u && u < 0xDC00

def isLowSurrogate (u : CodeUnit) : Bool := 0xDC00 ≤ u && u < 0xE000

def isDigit (u : CodeUnit) : Bool := 0x30 ≤ u && u ≤ 0x39

def isUpper (u : CodeUnit) : Bool := 0x41 ≤ u && u ≤ 0x5A

def isLower (u : CodeUnit) : Bool := 0x61 ≤ u && u ≤ 0x7A

def isLetter (u : CodeUnit) : Bool := isUpper u || isLower u

/-- What an identifier may start with: an ASCII letter or an underscore. -/
def startsIdentifier (u : CodeUnit) : Bool := isLetter u || u == 0x5F

/-- What an identifier may go on with: its starts and the digits. -/
def continuesIdentifier (u : CodeUnit) : Bool := startsIdentifier u || isDigit u

/-- The value of a digit. -/
def digitValue (u : CodeUnit) : Nat := u.toNat - 0x30

/-- ASCII letters in lower case, every other unit as it is. -/
def lowerAscii (u : CodeUnit) : CodeUnit := if isUpper u then u + 0x20 else u

theorem startsIdentifier.continues {u : CodeUnit} (h : startsIdentifier u = true) :
    continuesIdentifier u = true := by
  simp [continuesIdentifier, h]

end CodeUnit

namespace Text

/-- The units of one code point. -/
def ofCodePoint (n : Nat) : Text :=
  if n < 0x10000 then [n.toUInt16]
  else [(0xD800 + (n - 0x10000) / 0x400).toUInt16, (0xDC00 + (n - 0x10000) % 0x400).toUInt16]

def ofCodePoints (ns : List Nat) : Text := ns.flatMap ofCodePoint

def ofString (s : String) : Text := ofCodePoints (s.toList.map Char.toNat)

instance : Coe String Text := ⟨ofString⟩

/-- The code point of a surrogate pair. -/
def pairCodePoint (high low : CodeUnit) : Nat :=
  0x10000 + (high.toNat - 0xD800) * 0x400 + (low.toNat - 0xDC00)

/-- The code points of a text; a surrogate that stands alone is its own code point. -/
def codePoints : Text → List Nat
  | [] => []
  | [u] => [u.toNat]
  | u :: v :: rest =>
    if u.isHighSurrogate && v.isLowSurrogate then pairCodePoint u v :: codePoints rest
    else u.toNat :: codePoints (v :: rest)

/-- The character that stands for a code point that is none. -/
def replacementCharacter : Nat := 0xFFFD

def isSurrogate (n : Nat) : Bool := 0xD800 ≤ n && n < 0xE000

/-- A surrogate that stands alone becomes the replacement character. -/
def scalar (n : Nat) : Nat := if isSurrogate n then replacementCharacter else n

def toString (t : Text) : String :=
  String.ofList (t.codePoints.map fun n => Char.ofNat (scalar n))

/-- The texts one after another. -/
def join (ts : List Text) : Text := ts.flatten

/-- The texts one after another, with a separator between neighbours. -/
def joinWith (separator : Text) : List Text → Text
  | [] => []
  | [t] => t
  | t :: ts => t ++ separator ++ joinWith separator ts

/-- The text between quotation marks. -/
def quoted (t : Text) : Text := 0x22 :: (t ++ [0x22])

def lowerAscii (t : Text) : Text := t.map CodeUnit.lowerAscii

/-- Whether the first text stands somewhere in the second. -/
def occursIn (needle : Text) : Text → Bool
  | [] => needle.isEmpty
  | u :: rest => needle.isPrefixOf (u :: rest) || occursIn needle rest

/-- Every separator ends a piece; the last piece is what follows them all. -/
def splitOn (separator : CodeUnit → Bool) : Text → List Text
  | [] => [[]]
  | u :: rest =>
    match splitOn separator rest with
    | [] => [[u]]
    | piece :: pieces => if separator u then [] :: piece :: pieces else (u :: piece) :: pieces

/-- Order by units, a shorter text before its extensions. -/
def precedes : Text → Text → Bool
  | [], [] => false
  | [], _ :: _ => true
  | _ :: _, [] => false
  | u :: us, v :: vs => u < v || (u == v && precedes us vs)

@[simp] theorem join_nil : join [] = [] := rfl

@[simp] theorem join_cons (t : Text) (ts : List Text) : join (t :: ts) = t ++ join ts := rfl

variable {t : Text} {p : CodeUnit → Bool}

theorem drop_length_takeWhile (t : Text) (p : CodeUnit → Bool) :
    t.drop (t.takeWhile p).length = t.dropWhile p :=
  calc
    t.drop (t.takeWhile p).length = (t.takeWhile p ++ t.dropWhile p).drop (t.takeWhile p).length := by
      rw [List.takeWhile_append_dropWhile]
    _ = t.dropWhile p := List.drop_left

theorem head_dropWhile {u : CodeUnit} (h : u ∈ (t.dropWhile p).head?) : p u = false := by
  have := List.head?_dropWhile_not p t
  rw [h] at this
  exact this

theorem takeWhile_append_stop {s : Text} (hs : ∀ u ∈ s, p u = true)
    (ht : ∀ u ∈ t.head?, p u = false) : (s ++ t).takeWhile p = s := by
  rw [List.takeWhile_append_of_pos hs]
  cases t with
  | nil => exact List.append_nil s
  | cons u t =>
    rw [List.takeWhile_cons_of_neg (by rw [ht u rfl]; exact Bool.false_ne_true), List.append_nil]

theorem dropWhile_append_stop {s : Text} (hs : ∀ u ∈ s, p u = true)
    (ht : ∀ u ∈ t.head?, p u = false) : (s ++ t).dropWhile p = t := by
  rw [← drop_length_takeWhile, takeWhile_append_stop hs ht, List.drop_left]

end Text

/-! ## Blanks

The white space and line ends of Unicode that lie in the basic plane, and the byte order mark. The
same set separates tokens and is trimmed from a text. -/

def CodeUnit.isBlank (u : CodeUnit) : Bool :=
  (0x09 ≤ u && u ≤ 0x0D) || u == 0x20 || u == 0xA0 || u == 0x1680
    || (0x2000 ≤ u && u ≤ 0x200A) || u == 0x2028 || u == 0x2029 || u == 0x202F || u == 0x205F
    || u == 0x3000 || u == 0xFEFF

namespace Text

def isBlank (t : Text) : Bool := t.all CodeUnit.isBlank

def trimLeft (t : Text) : Text := t.dropWhile CodeUnit.isBlank

/-- The text without the blanks at its two ends. -/
def trim (t : Text) : Text := (trimLeft (trimLeft t).reverse).reverse

theorem isBlank_cons {u : CodeUnit} {t : Text} :
    isBlank (u :: t) = true ↔ u.isBlank = true ∧ isBlank t = true := by
  rw [isBlank, List.all_cons, Bool.and_eq_true]
  rfl

theorem trimLeft_eq_nil_iff (t : Text) : trimLeft t = [] ↔ isBlank t = true := by
  unfold trimLeft isBlank
  induction t with
  | nil => exact ⟨fun _ => rfl, fun _ => rfl⟩
  | cons u t ih =>
    by_cases h : u.isBlank = true
    · rw [List.dropWhile_cons_of_pos h, List.all_cons, h, Bool.true_and]
      exact ih
    · rw [List.dropWhile_cons_of_neg h, List.all_cons]
      simp [h]

end Text

end VirtualChannels

namespace VirtualChannels.Text

/-! ## Texts as messages show them

They stand between marks, with escapes for what has no visible form, and are cut off where they
are long. -/

/-- The first mark that does not occur in the text, else the apostrophe. -/
def enclosingMark (t : Text) : CodeUnit :=
  ([0x27, 0x22, 0x60].find? fun mark => !t.contains mark).getD 0x27

def upperHexDigit (n : Nat) : CodeUnit := (if n < 10 then 0x30 + n else 0x37 + n).toUInt16

/-- The letters that stand for controls behind a backslash. -/
def controlLetters : List (CodeUnit × CodeUnit) :=
  [(0x08, 0x62), (0x09, 0x74), (0x0A, 0x6E), (0x0C, 0x66), (0x0D, 0x72)]

def shownUnit (mark u : CodeUnit) : Text :=
  if u == mark || u == 0x5C then [0x5C, u]
  else
    match controlLetters.lookup u with
    | some letter => [0x5C, letter]
    | none =>
      if u < 0x20 || (0x7F ≤ u && u < 0xA0) then
        [0x5C, 0x78, upperHexDigit (u.toNat / 0x10), upperHexDigit (u.toNat % 0x10)]
      else [u]

/-- The text between marks. -/
def shown (t : Text) : Text :=
  let mark := enclosingMark t
  mark :: (t.flatMap (shownUnit mark) ++ [mark])

/-- A text up to a length, with dots for the rest. -/
def cutOff (length : Nat) (t : Text) : Text :=
  if t.length ≤ length then t else t.take length ++ ofString "..."

end VirtualChannels.Text

namespace VirtualChannels.Utf8

/-! ## UTF-8

A text as bytes and bytes as a text. Writing puts the replacement character for a surrogate that
stands alone; reading puts one for every longest run of bytes that begins a character but does not
complete it, and for every byte that begins none. -/

abbrev Bytes := List UInt8

/-- The bytes of one Unicode character. -/
def encodeScalar (n : Nat) : Bytes :=
  if n < 0x80 then [n.toUInt8]
  else if n < 0x800 then [(0xC0 + n / 0x40).toUInt8, (0x80 + n % 0x40).toUInt8]
  else if n < 0x10000 then
    [(0xE0 + n / 0x1000).toUInt8, (0x80 + n / 0x40 % 0x40).toUInt8, (0x80 + n % 0x40).toUInt8]
  else
    [(0xF0 + n / 0x40000).toUInt8, (0x80 + n / 0x1000 % 0x40).toUInt8,
      (0x80 + n / 0x40 % 0x40).toUInt8, (0x80 + n % 0x40).toUInt8]

def encode (t : Text) : Bytes := t.codePoints.flatMap fun n => encodeScalar (Text.scalar n)

/-- A character whose first bytes were read: its value so far, how many bytes it still
needs, and the range that the next one must lie in. -/
structure Pending where
  value : Nat
  missing : Nat
  low : UInt8 := 0x80
  high : UInt8 := 0xBF

/-- What a byte begins: a whole character, or one that needs more bytes. The ranges leave out
overlong forms, surrogates and values past the last code point. -/
def lead (b : UInt8) : Nat ⊕ Pending :=
  if b < 0x80 then .inl b.toNat
  else if 0xC2 ≤ b && b ≤ 0xDF then .inr ⟨b.toNat - 0xC0, 1, 0x80, 0xBF⟩
  else if 0xE0 ≤ b && b ≤ 0xEF then
    .inr ⟨b.toNat - 0xE0, 2, if b == 0xE0 then 0xA0 else 0x80, if b == 0xED then 0x9F else 0xBF⟩
  else if 0xF0 ≤ b && b ≤ 0xF4 then
    .inr ⟨b.toNat - 0xF0, 3, if b == 0xF0 then 0x90 else 0x80, if b == 0xF4 then 0x8F else 0xBF⟩
  else .inl Text.replacementCharacter

/-- The code points of the bytes, after the beginning that is pending. -/
def decodeFrom : Option Pending → Bytes → List Nat
  | none, [] => []
  | some _, [] => [Text.replacementCharacter]
  | none, b :: bs =>
    match lead b with
    | .inl n => n :: decodeFrom none bs
    | .inr p => decodeFrom (some p) bs
  | some p, b :: bs =>
    if p.low ≤ b && b ≤ p.high then
      let value := p.value * 0x40 + (b.toNat - 0x80)
      if p.missing ≤ 1 then value :: decodeFrom none bs
      else decodeFrom (some ⟨value, p.missing - 1, 0x80, 0xBF⟩) bs
    else
      match lead b with
      | .inl n => Text.replacementCharacter :: n :: decodeFrom none bs
      | .inr q => Text.replacementCharacter :: decodeFrom (some q) bs

def decode (bs : Bytes) : Text := Text.ofCodePoints (decodeFrom none bs)

end VirtualChannels.Utf8
