import VirtualChannels.Formula.Expr
import VirtualChannels.Formula.Token

/-
  The grammar of formulas as a type of derivations.

    expression  a term, then any number of `+` or `-` and a term
    term        a unary, then any number of `*` or `/` and a unary
    unary       `-` or `+` and a unary, or a power
    power       a primary, optionally `^` and a unary
    primary     a number, a name, an operand, a call, or an expression in parentheses
    arguments   an expression, then any number of `,` and an expression

  A sentence consists of the lexemes of a text and of operands, which stand for what is not
  spelled out; a grammar of plain texts has no operands. `Derivation.words` is the sentence
  that is derived and `Derivation.tree` its expression. `Admissible` is what the grammar leaves
  to the table of functions: a name is that of no function, and a call is of a function that
  takes so many arguments.

  Main result: a sentence has at most one derivation (`eq_of_words_eq`).
-/

namespace VirtualChannels.Formula

/-- What a sentence is made of. -/
inductive Word (ω : Type) where
  | lexeme (l : Lexeme)
  | operand (w : ω)

inductive Category where
  | expression | sums | term | products | unary | power | primary | arguments

/-- What may stand between two factors. -/
inductive Factor where
  | times | divided

namespace Factor

def symbol : Factor → Symbol
  | times => .star
  | divided => .slash

def operator : Factor → Operator
  | times => .mul
  | divided => .div

theorem symbol_injective {f g : Factor} (h : f.symbol = g.symbol) : f = g := by
  cases f <;> cases g <;> first | rfl | cases h

end Factor

namespace Sign

def symbol : Sign → Symbol
  | plus => .plus
  | minus => .minus

def operator : Sign → Operator
  | plus => .add
  | minus => .sub

theorem symbol_injective {s t : Sign} (h : s.symbol = t.symbol) : s = t := by
  cases s <;> cases t <;> first | rfl | cases h

end Sign

/-- The ways to derive a phrase of a category. `sums` and `products` are what may follow the
first term or factor. -/
inductive Derivation (ω : Type) : Category → Type where
  | expression (first : Derivation ω .term) (more : Derivation ω .sums) : Derivation ω .expression
  | noSum : Derivation ω .sums
  | sum (s : Sign) (right : Derivation ω .term) (more : Derivation ω .sums) : Derivation ω .sums
  | term (first : Derivation ω .unary) (more : Derivation ω .products) : Derivation ω .term
  | noProduct : Derivation ω .products
  | product (f : Factor) (right : Derivation ω .unary) (more : Derivation ω .products) :
      Derivation ω .products
  | signed (s : Sign) (inner : Derivation ω .unary) : Derivation ω .unary
  | unsigned (inner : Derivation ω .power) : Derivation ω .unary
  | base (b : Derivation ω .primary) : Derivation ω .power
  | raised (b : Derivation ω .primary) (exponent : Derivation ω .unary) : Derivation ω .power
  | number (x : Float) : Derivation ω .primary
  | name (n : Text) : Derivation ω .primary
  | operand (w : ω) : Derivation ω .primary
  | group (inner : Derivation ω .expression) : Derivation ω .primary
  | call (function : Text) (args : Derivation ω .arguments) : Derivation ω .primary
  | lastArgument (last : Derivation ω .expression) : Derivation ω .arguments
  | argument (first : Derivation ω .expression) (more : Derivation ω .arguments) :
      Derivation ω .arguments

/-- What a phrase means: what follows a first operand makes an expression of one. -/
abbrev Category.Tree : Category → Type
  | sums | products => Expr → Expr
  | arguments => List Expr
  | _ => Expr

namespace Derivation

variable {ω : Type} {c : Category}

/-- The sentence that is derived. -/
def words : {c : Category} → Derivation ω c → List (Word ω)
  | _, expression first more => first.words ++ more.words
  | _, noSum => []
  | _, sum s right more => .lexeme (.symbol s.symbol) :: (right.words ++ more.words)
  | _, term first more => first.words ++ more.words
  | _, noProduct => []
  | _, product f right more => .lexeme (.symbol f.symbol) :: (right.words ++ more.words)
  | _, signed s inner => .lexeme (.symbol s.symbol) :: inner.words
  | _, unsigned inner => inner.words
  | _, base b => b.words
  | _, raised b exponent => b.words ++ .lexeme (.symbol .caret) :: exponent.words
  | _, number x => [.lexeme (.number x)]
  | _, name n => [.lexeme (.identifier n)]
  | _, operand w => [.operand w]
  | _, group inner =>
    .lexeme (.symbol .openParen) :: (inner.words ++ [.lexeme (.symbol .closeParen)])
  | _, call function args =>
    .lexeme (.identifier function) :: .lexeme (.symbol .openParen) ::
      (args.words ++ [.lexeme (.symbol .closeParen)])
  | _, lastArgument last => last.words
  | _, argument first more => first.words ++ .lexeme (.symbol .comma) :: more.words

/-- The expression of a derivation, given those of its operands. Sums and products associate to
the left and powers to the right, parentheses stay, and functions are named in lower case. -/
def tree (leaf : ω → Expr) : {c : Category} → Derivation ω c → c.Tree
  | _, expression first more => more.tree leaf (first.tree leaf)
  | _, noSum => fun left => left
  | _, sum s right more => fun left =>
    more.tree leaf (.binary s.operator left (right.tree leaf))
  | _, term first more => more.tree leaf (first.tree leaf)
  | _, noProduct => fun left => left
  | _, product f right more => fun left =>
    more.tree leaf (.binary f.operator left (right.tree leaf))
  | _, signed s inner => .sign s (inner.tree leaf)
  | _, unsigned inner => inner.tree leaf
  | _, base b => b.tree leaf
  | _, raised b exponent => .binary .pow (b.tree leaf) (exponent.tree leaf)
  | _, number x => .number x
  | _, name n => .name n
  | _, operand w => leaf w
  | _, group inner => .group (inner.tree leaf)
  | _, call function args => .call function.lowerAscii (args.tree leaf)
  | _, lastArgument last => [last.tree leaf]
  | _, argument first more => first.tree leaf :: more.tree leaf

/-- How many arguments there are. -/
def count : Derivation ω .arguments → Nat
  | lastArgument _ => 1
  | argument _ more => more.count + 1

/-- Names are of no function, calls of functions that take so many arguments. -/
def Admissible : {c : Category} → Derivation ω c → Prop
  | _, expression first more => first.Admissible ∧ more.Admissible
  | _, noSum => True
  | _, sum _ right more => right.Admissible ∧ more.Admissible
  | _, term first more => first.Admissible ∧ more.Admissible
  | _, noProduct => True
  | _, product _ right more => right.Admissible ∧ more.Admissible
  | _, signed _ inner => inner.Admissible
  | _, unsigned inner => inner.Admissible
  | _, base b => b.Admissible
  | _, raised b exponent => b.Admissible ∧ exponent.Admissible
  | _, number _ => True
  | _, name n => Builtin.find? n = none
  | _, operand _ => True
  | _, group inner => inner.Admissible
  | _, call function args =>
    (∃ f, Builtin.find? function = some f ∧ f.accepts args.count = true) ∧ args.Admissible
  | _, lastArgument last => last.Admissible
  | _, argument first more => first.Admissible ∧ more.Admissible

theorem length_tree (leaf : ω → Expr) (args : Derivation ω .arguments) :
    (args.tree leaf).length = args.count := by
  match args with
  | lastArgument _ => simp [tree, count]
  | argument _ more => simp [tree, count, length_tree leaf more]

end Derivation

/-! ## A sentence has one derivation -/

/-- The symbols that may go on with a phrase, or make another one of its beginning. -/
def Category.continuations : Category → List Symbol
  | primary => [.openParen]
  | power | unary => [.caret, .openParen]
  | products | term => [.star, .slash, .caret, .openParen]
  | sums | expression => [.plus, .minus, .star, .slash, .caret, .openParen]
  | arguments => [.comma, .plus, .minus, .star, .slash, .caret, .openParen]

/-- A phrase of the category cannot go on into what follows. -/
def Category.Stops {ω : Type} (c : Category) (following : List (Word ω)) : Prop :=
  ∀ s ∈ c.continuations, following.head? ≠ some (.lexeme (.symbol s))

namespace Category.Stops

variable {ω : Type} {c : Category}

theorem nil (c : Category) : c.Stops ([] : List (Word ω)) := by
  intro s _ h
  cases h

theorem symbol {s : Symbol} {us : List (Word ω)} (h : s ∉ c.continuations) :
    c.Stops (.lexeme (.symbol s) :: us) := by
  intro t ht e
  cases e
  exact h ht

theorem mono {c' : Category} {us : List (Word ω)} (h : c.Stops us)
    (hc : ∀ s ∈ c'.continuations, s ∈ c.continuations) : c'.Stops us :=
  fun s hs => h s (hc s hs)

/-- What a phrase cannot go on into does not begin with a symbol that it goes on with. -/
theorem ne_symbol {s : Symbol} {us us' : List (Word ω)} (h : c.Stops us)
    (hc : s ∈ c.continuations) : us ≠ .lexeme (.symbol s) :: us' := by
  rintro rfl
  exact h s hc rfl

end Category.Stops

theorem Sign.mem_continuations (s : Sign) : s.symbol ∈ Category.sums.continuations := by
  cases s <;> decide

theorem Factor.mem_continuations (f : Factor) : f.symbol ∈ Category.products.continuations := by
  cases f <;> decide

namespace Derivation

open Category (Stops)

variable {ω : Type}

/-- What follows a term in a sum does not go on with the term. -/
theorem stops_sums (d : Derivation ω .sums) {us : List (Word ω)}
    (h : Category.sums.Stops us) : Category.term.Stops (d.words ++ us) := by
  cases d with
  | noSum => exact h.mono (by decide)
  | sum s right more => cases s <;> exact .symbol (by decide)

theorem stops_products (d : Derivation ω .products) {us : List (Word ω)}
    (h : Category.products.Stops us) : Category.unary.Stops (d.words ++ us) := by
  cases d with
  | noProduct => exact h.mono (by decide)
  | product f right more => cases f <;> exact .symbol (by decide)

/-- A primary does not begin with a sign. -/
theorem primary_head (d : Derivation ω .primary) (us us' : List (Word ω)) (s : Sign) :
    d.words ++ us ≠ .lexeme (.symbol s.symbol) :: us' := by
  intro h
  cases d <;> simp only [words, List.cons_append, List.cons.injEq, Word.lexeme.injEq,
    Lexeme.symbol.injEq, reduceCtorEq, false_and, List.nil_append] at h
  case group => cases s <;> exact absurd h.1 (by decide)

theorem power_head (d : Derivation ω .power) (us us' : List (Word ω)) (s : Sign) :
    d.words ++ us ≠ .lexeme (.symbol s.symbol) :: us' := by
  cases d with
  | base b => exact primary_head b us us' s
  | raised b exponent =>
    intro h
    rw [words, List.append_assoc] at h
    exact primary_head b _ us' s h

/-- Of two phrases of a category at the start of one sentence, both as long as they can be, the
derivations are the same. -/
theorem eq_of_words_append {c : Category} (d d' : Derivation ω c) {us us' : List (Word ω)}
    (hs : c.Stops us) (hs' : c.Stops us') (h : d.words ++ us = d'.words ++ us') :
    d = d' ∧ us = us' := by
  induction d generalizing us us' with
  | expression first more ihf ihm =>
    cases d' with
    | expression first' more' =>
      simp only [words, List.append_assoc] at h
      obtain ⟨rfl, e⟩ := ihf first' (stops_sums more hs) (stops_sums more' hs') h
      obtain ⟨rfl, e'⟩ := ihm more' hs hs' e
      exact ⟨rfl, e'⟩
  | noSum =>
    cases d' with
    | noSum => exact ⟨rfl, h⟩
    | sum s right more => exact absurd h (hs.ne_symbol s.mem_continuations)
  | sum s right more ihr ihm =>
    cases d' with
    | noSum => exact absurd h.symm (hs'.ne_symbol s.mem_continuations)
    | sum s' right' more' =>
      simp only [words, List.cons_append, List.append_assoc, List.cons.injEq, Word.lexeme.injEq,
        Lexeme.symbol.injEq] at h
      obtain rfl := Sign.symbol_injective h.1
      obtain ⟨rfl, e⟩ := ihr right' (stops_sums more hs) (stops_sums more' hs') h.2
      obtain ⟨rfl, e'⟩ := ihm more' hs hs' e
      exact ⟨rfl, e'⟩
  | term first more ihf ihm =>
    cases d' with
    | term first' more' =>
      simp only [words, List.append_assoc] at h
      obtain ⟨rfl, e⟩ := ihf first' (stops_products more hs) (stops_products more' hs') h
      obtain ⟨rfl, e'⟩ := ihm more' hs hs' e
      exact ⟨rfl, e'⟩
  | noProduct =>
    cases d' with
    | noProduct => exact ⟨rfl, h⟩
    | product f right more => exact absurd h (hs.ne_symbol f.mem_continuations)
  | product f right more ihr ihm =>
    cases d' with
    | noProduct => exact absurd h.symm (hs'.ne_symbol f.mem_continuations)
    | product f' right' more' =>
      simp only [words, List.cons_append, List.append_assoc, List.cons.injEq, Word.lexeme.injEq,
        Lexeme.symbol.injEq] at h
      obtain rfl := Factor.symbol_injective h.1
      obtain ⟨rfl, e⟩ := ihr right' (stops_products more hs) (stops_products more' hs') h.2
      obtain ⟨rfl, e'⟩ := ihm more' hs hs' e
      exact ⟨rfl, e'⟩
  | signed s inner ih =>
    cases d' with
    | signed s' inner' =>
      simp only [words, List.cons_append, List.cons.injEq, Word.lexeme.injEq,
        Lexeme.symbol.injEq] at h
      obtain rfl := Sign.symbol_injective h.1
      obtain ⟨rfl, e⟩ := ih inner' hs hs' h.2
      exact ⟨rfl, e⟩
    | unsigned inner' => exact absurd h.symm (power_head inner' us' _ s)
  | unsigned inner ih =>
    cases d' with
    | signed s' inner' => exact absurd h (power_head inner us _ s')
    | unsigned inner' =>
      obtain ⟨rfl, e⟩ := ih inner' hs hs' h
      exact ⟨rfl, e⟩
  | base b ih =>
    cases d' with
    | base b' =>
      obtain ⟨rfl, e⟩ := ih b' (hs.mono (by decide)) (hs'.mono (by decide)) h
      exact ⟨rfl, e⟩
    | raised b' exponent =>
      simp only [words, List.append_assoc] at h
      obtain ⟨-, e⟩ := ih b' (hs.mono (by decide)) (.symbol (by decide)) h
      exact absurd e (hs.ne_symbol (by decide))
  | raised b exponent ihb ihe =>
    cases d' with
    | base b' =>
      simp only [words, List.append_assoc] at h
      obtain ⟨-, e⟩ := ihb b' (.symbol (by decide)) (hs'.mono (by decide)) h
      exact absurd e.symm (hs'.ne_symbol (by decide))
    | raised b' exponent' =>
      simp only [words, List.append_assoc] at h
      obtain ⟨rfl, e⟩ := ihb b' (.symbol (by decide)) (.symbol (by decide)) h
      obtain ⟨rfl, e'⟩ := ihe exponent' hs hs' (List.cons.inj e).2
      exact ⟨rfl, e'⟩
  | number x => cases d' <;> simp_all [words]
  | name n =>
    cases d' with
    | call n' args' =>
      simp only [words, List.cons_append, List.nil_append, List.cons.injEq] at h
      exact absurd h.2 (hs.ne_symbol (by decide))
    | _ => simp_all [words]
  | operand w => cases d' <;> simp_all [words]
  | group inner ih =>
    cases d' with
    | group inner' =>
      simp only [words, List.cons_append, List.append_assoc, List.cons.injEq, true_and] at h
      obtain ⟨rfl, e⟩ := ih inner' (.symbol (by decide)) (.symbol (by decide)) h
      exact ⟨rfl, (List.cons.inj e).2⟩
    | _ => simp_all [words]
  | call n args ih =>
    cases d' with
    | name n' =>
      simp only [words, List.cons_append, List.nil_append, List.cons.injEq] at h
      exact absurd h.2.symm (hs'.ne_symbol (by decide))
    | call n' args' =>
      simp only [words, List.cons_append, List.append_assoc, List.cons.injEq, Word.lexeme.injEq,
        Lexeme.identifier.injEq, true_and] at h
      obtain ⟨rfl, e⟩ := h
      obtain ⟨rfl, e'⟩ := ih args' (.symbol (by decide)) (.symbol (by decide)) e
      exact ⟨rfl, (List.cons.inj e').2⟩
    | _ => simp_all [words]
  | lastArgument last ih =>
    cases d' with
    | lastArgument last' =>
      obtain ⟨rfl, e⟩ := ih last' (hs.mono (by decide)) (hs'.mono (by decide)) h
      exact ⟨rfl, e⟩
    | argument first' more' =>
      simp only [words, List.append_assoc] at h
      obtain ⟨-, e⟩ := ih first' (hs.mono (by decide)) (.symbol (by decide)) h
      exact absurd e (hs.ne_symbol (by decide))
  | argument first more ihf ihm =>
    cases d' with
    | lastArgument last' =>
      simp only [words, List.append_assoc] at h
      obtain ⟨-, e⟩ := ihf last' (.symbol (by decide)) (hs'.mono (by decide)) h
      exact absurd e.symm (hs'.ne_symbol (by decide))
    | argument first' more' =>
      simp only [words, List.append_assoc] at h
      obtain ⟨rfl, e⟩ := ihf first' (.symbol (by decide)) (.symbol (by decide)) h
      obtain ⟨rfl, e'⟩ := ihm more' hs hs' (List.cons.inj e).2
      exact ⟨rfl, e'⟩

theorem eq_of_words_eq {c : Category} {d d' : Derivation ω c} (h : d.words = d'.words) :
    d = d' := by
  have h' : d.words ++ [] = d'.words ++ [] := congrArg (· ++ []) h
  exact (eq_of_words_append d d' (.nil c) (.nil c) h').1

end Derivation

end VirtualChannels.Formula
