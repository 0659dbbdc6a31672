import VirtualChannels.Proofs.Formula.Grammar
import VirtualChannels.Proofs.Formula.Readers
import VirtualChannels.Proofs.Formula.Tokens

/-
  The parser and the grammar. Tokens spell a sentence when they are its words, an operand being
  spelled by an identifier of its own, and the end. What a reader reads from tokens that spell a
  sentence is the tree of a derivation (`expression_sound`), and a derivation is read wherever
  it stands at the start of such tokens and cannot go on into what follows
  (`reads_of_derivation`).
-/

namespace VirtualChannels.Formula

variable {ω : Type}

/-- The lexeme of a word, for given identifiers of the operands. -/
def Word.spelled (spelling : ω → Text) : Word ω → Lexeme
  | lexeme l => l
  | operand w => .identifier (spelling w)

/-- The tokens are the words of a sentence and the end. -/
def Spells (spelling : ω → Text) (ws : List (Word ω)) (ts : List Token) : Prop :=
  ts.map Token.lexeme = ws.map (Word.spelled spelling) ++ [.finish]

theorem Word.eq_of_spelled_symbol {spelling : ω → Text} {w : Word ω} {s : Symbol}
    (h : w.spelled spelling = .symbol s) : w = .lexeme (.symbol s) := by
  cases w with
  | lexeme l => exact congrArg Word.lexeme h
  | operand w => cases h

namespace Spells

variable {spelling : ω → Text} {ws : List (Word ω)}

theorem ne_nil {ts : List Token} (h : Spells spelling ws ts) : ts ≠ [] := by
  rintro rfl
  simp [Spells] at h

/-- The first token is that of the first word, or the end where there is none. -/
theorem cons {l : Lexeme} {p : Nat} {ts : List Token} (h : Spells spelling ws (⟨l, p⟩ :: ts)) :
    (ws = [] ∧ l = .finish ∧ ts = []) ∨
      ∃ w ws', ws = w :: ws' ∧ w.spelled spelling = l ∧ Spells spelling ws' ts := by
  cases ws with
  | nil =>
    simp only [Spells, List.map_cons, List.map_nil, List.nil_append, List.cons.injEq,
      List.map_eq_nil_iff] at h
    exact Or.inl ⟨rfl, h⟩
  | cons w ws' =>
    simp only [Spells, List.map_cons, List.cons_append, List.cons.injEq] at h
    exact Or.inr ⟨w, ws', rfl, h.1.symm, h.2⟩

theorem symbol {s : Symbol} {p : Nat} {ts : List Token}
    (h : Spells spelling ws (⟨.symbol s, p⟩ :: ts)) :
    ∃ ws', ws = .lexeme (.symbol s) :: ws' ∧ Spells spelling ws' ts := by
  rcases h.cons with ⟨-, hl, -⟩ | ⟨w, ws', rfl, hl, h'⟩
  · cases hl
  · rw [Word.eq_of_spelled_symbol hl]
    exact ⟨ws', rfl, h'⟩

theorem of_word {w : Word ω} {ts : List Token} (h : Spells spelling (w :: ws) ts) :
    ∃ p ts', ts = ⟨w.spelled spelling, p⟩ :: ts' ∧ Spells spelling ws ts' := by
  cases ts with
  | nil => exact absurd rfl h.ne_nil
  | cons token ts' =>
    simp only [Spells, List.map_cons, List.cons_append, List.cons.injEq] at h
    exact ⟨token.position, ts', by rw [← h.1], h.2⟩

/-- A phrase that cannot go on has no symbol after it with which it would. -/
theorem ne_symbol {c : Category} {s : Symbol} {ts : List Token} (h : Spells spelling ws ts)
    (hs : c.Stops ws) (hc : s ∈ c.continuations) (p : Nat) (rest : List Token) :
    ts ≠ ⟨.symbol s, p⟩ :: rest := by
  rintro rfl
  obtain ⟨ws', e, -⟩ := h.symbol
  exact hs.ne_symbol hc e

end Spells

namespace Parser

variable {spelling : ω → Text}

theorem sumOperator?_eq_some {l : Lexeme} {op : Operator} (h : sumOperator? l = some op) :
    ∃ s : Sign, l = .symbol s.symbol ∧ op = s.operator := by
  unfold sumOperator? at h
  split at h
  · exact ⟨.plus, rfl, (Option.some.inj h).symm⟩
  · exact ⟨.minus, rfl, (Option.some.inj h).symm⟩
  · cases h

theorem productOperator?_eq_some {l : Lexeme} {op : Operator} (h : productOperator? l = some op) :
    ∃ f : Factor, l = .symbol f.symbol ∧ op = f.operator := by
  unfold productOperator? at h
  split at h
  · exact ⟨.times, rfl, (Option.some.inj h).symm⟩
  · exact ⟨.divided, rfl, (Option.some.inj h).symm⟩
  · cases h

theorem sign?_eq_some {l : Lexeme} {s : Sign} (h : sign? l = some s) : l = .symbol s.symbol := by
  unfold sign? at h
  split at h
  · rw [← Option.some.inj h]; rfl
  · rw [← Option.some.inj h]; rfl
  · cases h

theorem find?_name {n : Text} {f : Builtin} (h : Builtin.find? n = some f) :
    f.name = n.lowerAscii :=
  eq_of_beq (List.find?_some h :)

/-! ## What is read is derived -/

/-- The sentence begins with a phrase of the category and this tree, and the tokens spell what
follows the phrase. -/
def Derived (spelling : ω → Text) (c : Category) (ws : List (Word ω)) (tree : c.Tree)
    (rest : List Token) : Prop :=
  ∃ d : Derivation ω c, d.Admissible ∧ d.tree (fun w => .name (spelling w)) = tree ∧
    ∃ ws', ws = d.words ++ ws' ∧ Spells spelling ws' rest

mutual

theorem expression_sound (hf : ∀ w, Builtin.find? (spelling w) = none) {names noted : List Text}
    {ts rest : List Token} {e : Expr} (h : Yields (expression names ts) e noted rest)
    {ws : List (Word ω)} (hw : Spells spelling ws ts) : Derived spelling .expression ws e rest := by
  obtain ⟨left, between, mid, ht, hs⟩ := expression_yields.1 h
  have hlt : mid.length < ts.length := ht.property
  obtain ⟨d, hd, rfl, ws', rfl, hw'⟩ := term_sound hf ht hw
  obtain ⟨d', hd', rfl, us, rfl, hu⟩ := sums_sound hf hs hw'
  exact ⟨.expression d d', ⟨hd, hd'⟩, rfl, us, by simp [Derivation.words], hu⟩
termination_by 6 * ts.length + 4

theorem sums_sound (hf : ∀ w, Builtin.find? (spelling w) = none) {names noted : List Text}
    {ts rest : List Token} {left e : Expr} (h : Yields (sums left names ts) e noted rest)
    {ws : List (Word ω)} (hw : Spells spelling ws ts) :
    ∃ d : Derivation ω .sums, d.Admissible ∧ d.tree (fun w => .name (spelling w)) left = e ∧
      ∃ ws', ws = d.words ++ ws' ∧ Spells spelling ws' rest := by
  match ts with
  | [] => exact absurd rfl hw.ne_nil
  | ⟨l, p⟩ :: us =>
    cases ho : sumOperator? l with
    | none =>
      obtain ⟨rfl, -, rfl⟩ := (sums_yields_of_none ho).1 h
      exact ⟨.noSum, trivial, rfl, ws, rfl, hw⟩
    | some op =>
      obtain ⟨right, between, mid, ht, hs⟩ := (sums_yields_of_some ho).1 h
      have hlt : mid.length < us.length := ht.property
      obtain ⟨s, rfl, rfl⟩ := sumOperator?_eq_some ho
      obtain ⟨ws', rfl, hw'⟩ := hw.symbol
      obtain ⟨d, hd, rfl, vs, rfl, hv⟩ := term_sound hf ht hw'
      obtain ⟨d', hd', rfl, vs', rfl, hv'⟩ := sums_sound hf hs hv
      exact ⟨.sum s d d', ⟨hd, hd'⟩, rfl, vs', by simp [Derivation.words], hv'⟩
termination_by 6 * ts.length

theorem term_sound (hf : ∀ w, Builtin.find? (spelling w) = none) {names noted : List Text}
    {ts rest : List Token} {e : Expr} (h : Yields (term names ts) e noted rest)
    {ws : List (Word ω)} (hw : Spells spelling ws ts) : Derived spelling .term ws e rest := by
  obtain ⟨left, between, mid, ht, hs⟩ := term_yields.1 h
  have hlt : mid.length < ts.length := ht.property
  obtain ⟨d, hd, rfl, ws', rfl, hw'⟩ := unary_sound hf ht hw
  obtain ⟨d', hd', rfl, us, rfl, hu⟩ := products_sound hf hs hw'
  exact ⟨.term d d', ⟨hd, hd'⟩, rfl, us, by simp [Derivation.words], hu⟩
termination_by 6 * ts.length + 3

theorem products_sound (hf : ∀ w, Builtin.find? (spelling w) = none) {names noted : List Text}
    {ts rest : List Token} {left e : Expr} (h : Yields (products left names ts) e noted rest)
    {ws : List (Word ω)} (hw : Spells spelling ws ts) :
    ∃ d : Derivation ω .products, d.Admissible ∧
      d.tree (fun w => .name (spelling w)) left = e ∧
      ∃ ws', ws = d.words ++ ws' ∧ Spells spelling ws' rest := by
  match ts with
  | [] => exact absurd rfl hw.ne_nil
  | ⟨l, p⟩ :: us =>
    cases ho : productOperator? l with
    | none =>
      obtain ⟨rfl, -, rfl⟩ := (products_yields_of_none ho).1 h
      exact ⟨.noProduct, trivial, rfl, ws, rfl, hw⟩
    | some op =>
      obtain ⟨right, between, mid, ht, hs⟩ := (products_yields_of_some ho).1 h
      have hlt : mid.length < us.length := ht.property
      obtain ⟨f, rfl, rfl⟩ := productOperator?_eq_some ho
      obtain ⟨ws', rfl, hw'⟩ := hw.symbol
      obtain ⟨d, hd, rfl, vs, rfl, hv⟩ := unary_sound hf ht hw'
      obtain ⟨d', hd', rfl, vs', rfl, hv'⟩ := products_sound hf hs hv
      exact ⟨.product f d d', ⟨hd, hd'⟩, rfl, vs', by simp [Derivation.words], hv'⟩
termination_by 6 * ts.length

theorem unary_sound (hf : ∀ w, Builtin.find? (spelling w) = none) {names noted : List Text}
    {ts rest : List Token} {e : Expr} (h : Yields (unary names ts) e noted rest)
    {ws : List (Word ω)} (hw : Spells spelling ws ts) : Derived spelling .unary ws e rest := by
  match ts with
  | [] => exact absurd rfl hw.ne_nil
  | ⟨l, p⟩ :: us =>
    cases hs : sign? l with
    | none =>
      obtain ⟨d, hd, rfl, ws', rfl, hw'⟩ := power_sound hf ((unary_yields_of_none hs).1 h) hw
      exact ⟨.unsigned d, hd, rfl, ws', rfl, hw'⟩
    | some s =>
      obtain ⟨inner, hu, rfl⟩ := (unary_yields_of_some hs).1 h
      obtain rfl := sign?_eq_some hs
      obtain ⟨ws', rfl, hw'⟩ := hw.symbol
      obtain ⟨d, hd, rfl, vs, rfl, hv⟩ := unary_sound hf hu hw'
      exact ⟨.signed s d, hd, rfl, vs, rfl, hv⟩
termination_by 6 * ts.length + 2

theorem power_sound (hf : ∀ w, Builtin.find? (spelling w) = none) {names noted : List Text}
    {ts rest : List Token} {e : Expr} (h : Yields (power names ts) e noted rest)
    {ws : List (Word ω)} (hw : Spells spelling ws ts) : Derived spelling .power ws e rest := by
  rcases power_yields.1 h with ⟨hb, -⟩ | ⟨b, between, p, next, x, hb, hx, rfl⟩
  · obtain ⟨d, hd, rfl, ws', rfl, hw'⟩ := primary_sound hf hb hw
    exact ⟨.base d, hd, rfl, ws', rfl, hw'⟩
  · have hlt : next.length + 1 < ts.length := hb.property
    obtain ⟨d, hd, rfl, ws', rfl, hw'⟩ := primary_sound hf hb hw
    obtain ⟨us, rfl, hu⟩ := hw'.symbol
    obtain ⟨d', hd', rfl, vs, rfl, hv⟩ := unary_sound hf hx hu
    exact ⟨.raised d d', ⟨hd, hd'⟩, rfl, vs, by simp [Derivation.words], hv⟩
termination_by 6 * ts.length + 1

theorem primary_sound (hf : ∀ w, Builtin.find? (spelling w) = none) {names noted : List Text}
    {ts rest : List Token} {e : Expr} (h : Yields (primary names ts) e noted rest)
    {ws : List (Word ω)} (hw : Spells spelling ws ts) : Derived spelling .primary ws e rest := by
  match ts with
  | [] => exact absurd rfl hw.ne_nil
  | ⟨.finish, p⟩ :: us => exact absurd h not_primary_yields_finish
  | ⟨.number x, p⟩ :: us =>
    obtain ⟨rfl, -, rfl⟩ := primary_yields_number.1 h
    rcases hw.cons with ⟨-, hl, -⟩ | ⟨w, ws', rfl, hl, hw'⟩
    · cases hl
    · cases w with
      | lexeme l =>
        obtain rfl : l = .number x := hl
        exact ⟨.number x, trivial, rfl, ws', rfl, hw'⟩
      | operand w => cases hl
  | ⟨.symbol s, p⟩ :: us =>
    by_cases hs : s = .openParen
    · subst hs
      obtain ⟨inner, q, he, rfl⟩ := primary_yields_openParen.1 h
      obtain ⟨ws', rfl, hw'⟩ := hw.symbol
      obtain ⟨d, hd, rfl, vs, rfl, hv⟩ := expression_sound hf he hw'
      obtain ⟨vs', rfl, hv'⟩ := hv.symbol
      exact ⟨.group d, hd, rfl, vs', by simp [Derivation.words], hv'⟩
    · exact absurd h (not_primary_yields_symbol hs)
  | ⟨.identifier n, p⟩ :: us =>
    rcases hw.cons with ⟨-, hl, -⟩ | ⟨w, ws', rfl, hl, hw'⟩
    · cases hl
    rcases primary_yields_identifier.1 h with
      ⟨-, -, hn, rfl, -, rfl⟩ | ⟨q, start, f, args, q', rfl, hn, hes, ha, rfl⟩
    · -- an identifier of its own, or the spelling of an operand
      cases w with
      | lexeme l =>
        obtain rfl : l = .identifier n := hl
        exact ⟨.name n, hn, rfl, ws', rfl, hw'⟩
      | operand w =>
        refine ⟨.operand w, trivial, ?_, ws', rfl, hw'⟩
        rw [← Lexeme.identifier.inj hl]
        rfl
    · cases w with
      | operand w =>
        rw [← Lexeme.identifier.inj hl, hf] at hn
        cases hn
      | lexeme l =>
        obtain ⟨vs, rfl, hv⟩ := hw'.symbol
        obtain ⟨d, hd, rfl, us', rfl, hu⟩ := expressions_sound hf hes hv
        obtain ⟨vs', rfl, hv'⟩ := hu.symbol
        rw [Derivation.length_tree] at ha
        obtain rfl : l = .identifier n := hl
        refine ⟨.call n d, ⟨⟨f, hn, ha⟩, hd⟩, ?_, vs', by simp [Derivation.words], hv'⟩
        rw [find?_name hn]
        rfl
termination_by 6 * ts.length

theorem expressions_sound (hf : ∀ w, Builtin.find? (spelling w) = none) {names noted : List Text}
    {ts rest : List Token} {es : List Expr} (h : Yields (expressions names ts) es noted rest)
    {ws : List (Word ω)} (hw : Spells spelling ws ts) : Derived spelling .arguments ws es rest := by
  rcases expressions_yields.1 h with ⟨e, he, -, rfl⟩ | ⟨e, between, p, next, others, he, hes, rfl⟩
  · obtain ⟨d, hd, rfl, ws', rfl, hw'⟩ := expression_sound hf he hw
    exact ⟨.lastArgument d, hd, rfl, ws', rfl, hw'⟩
  · have hlt : next.length + 1 < ts.length := he.property
    obtain ⟨d, hd, rfl, ws', rfl, hw'⟩ := expression_sound hf he hw
    obtain ⟨us, rfl, hu⟩ := hw'.symbol
    obtain ⟨d', hd', rfl, vs, rfl, hv⟩ := expressions_sound hf hes hu
    exact ⟨.argument d d', ⟨hd, hd'⟩, rfl, vs, by simp [Derivation.words], hv⟩
termination_by 6 * ts.length + 5

end

/-! ## What is derived is read -/

/-- The readers of a category read the tree from the tokens and leave the rest, whatever names have
been noted before. -/
def Reads : (c : Category) → List Token → c.Tree → List Token → Prop
  | .expression, ts, e, rest => ∀ names, ∃ noted, Yields (expression names ts) e noted rest
  | .sums, ts, e, rest => ∀ left names, ∃ noted, Yields (sums left names ts) (e left) noted rest
  | .term, ts, e, rest => ∀ names, ∃ noted, Yields (term names ts) e noted rest
  | .products, ts, e, rest =>
    ∀ left names, ∃ noted, Yields (products left names ts) (e left) noted rest
  | .unary, ts, e, rest => ∀ names, ∃ noted, Yields (unary names ts) e noted rest
  | .power, ts, e, rest => ∀ names, ∃ noted, Yields (power names ts) e noted rest
  | .primary, ts, e, rest => ∀ names, ∃ noted, Yields (primary names ts) e noted rest
  | .arguments, ts, es, rest => ∀ names, ∃ noted, Yields (expressions names ts) es noted rest

theorem sumOperator?_of_stops {ws : List (Word ω)} {l : Lexeme} {p : Nat} {ts : List Token}
    (hw : Spells spelling ws (⟨l, p⟩ :: ts)) (hs : Category.sums.Stops ws) :
    sumOperator? l = none := by
  cases ho : sumOperator? l with
  | none => rfl
  | some op =>
    obtain ⟨s, rfl, -⟩ := sumOperator?_eq_some ho
    exact absurd rfl (hw.ne_symbol hs s.mem_continuations p ts)

theorem productOperator?_of_stops {ws : List (Word ω)} {l : Lexeme} {p : Nat} {ts : List Token}
    (hw : Spells spelling ws (⟨l, p⟩ :: ts)) (hs : Category.products.Stops ws) :
    productOperator? l = none := by
  cases ho : productOperator? l with
  | none => rfl
  | some op =>
    obtain ⟨f, rfl, -⟩ := productOperator?_eq_some ho
    exact absurd rfl (hw.ne_symbol hs f.mem_continuations p ts)

theorem sign?_of_power (d : Derivation ω .power) {ws : List (Word ω)} {l : Lexeme} {p : Nat}
    {ts : List Token} (hw : Spells spelling (d.words ++ ws) (⟨l, p⟩ :: ts)) : sign? l = none := by
  cases hs : sign? l with
  | none => rfl
  | some s =>
    obtain rfl := sign?_eq_some hs
    obtain ⟨ws', e, -⟩ := hw.symbol
    exact absurd e (d.power_head ws ws' s)

theorem sumOperator?_symbol (s : Sign) : sumOperator? (.symbol s.symbol) = some s.operator := by
  cases s <;> rfl

theorem productOperator?_symbol (f : Factor) :
    productOperator? (.symbol f.symbol) = some f.operator := by
  cases f <;> rfl

theorem sign?_symbol (s : Sign) : sign? (.symbol s.symbol) = some s := by
  cases s <;> rfl

/-- Tokens that spell a phrase and what follows are read as the tree of the phrase, up to what
follows, if the phrase cannot go on into that. -/
theorem reads_of_derivation (hf : ∀ w, Builtin.find? (spelling w) = none) {c : Category}
    (d : Derivation ω c) (hd : d.Admissible) {ws : List (Word ω)} {ts : List Token}
    (hs : c.Stops ws) (hw : Spells spelling (d.words ++ ws) ts) :
    ∃ rest, Spells spelling ws rest ∧ Reads c ts (d.tree fun w => .name (spelling w)) rest := by
  induction d generalizing ws ts with
  | expression first more ihf ihm =>
    rw [Derivation.words, List.append_assoc] at hw
    obtain ⟨mid, hmid, ht⟩ := ihf hd.1 (more.stops_sums hs) hw
    obtain ⟨rest, hrest, hm⟩ := ihm hd.2 hs hmid
    refine ⟨rest, hrest, fun names => ?_⟩
    obtain ⟨between, ht⟩ := ht names
    obtain ⟨noted, hm⟩ := hm _ between
    exact ⟨noted, expression_yields.2 ⟨_, between, mid, ht, hm⟩⟩
  | noSum =>
    refine ⟨ts, hw, fun left names => ⟨names, ?_⟩⟩
    match ts with
    | [] => exact absurd rfl hw.ne_nil
    | ⟨l, p⟩ :: us => exact (sums_yields_of_none (sumOperator?_of_stops hw hs)).2 ⟨rfl, rfl, rfl⟩
  | sum s right more ihr ihm =>
    rw [Derivation.words, List.cons_append, List.append_assoc] at hw
    obtain ⟨p, us, rfl, hu⟩ := hw.of_word
    obtain ⟨mid, hmid, ht⟩ := ihr hd.1 (more.stops_sums hs) hu
    obtain ⟨rest, hrest, hm⟩ := ihm hd.2 hs hmid
    refine ⟨rest, hrest, fun left names => ?_⟩
    obtain ⟨between, ht⟩ := ht names
    obtain ⟨noted, hm⟩ := hm _ between
    exact ⟨noted, (sums_yields_of_some (sumOperator?_symbol s)).2 ⟨_, between, mid, ht, hm⟩⟩
  | term first more ihf ihm =>
    rw [Derivation.words, List.append_assoc] at hw
    obtain ⟨mid, hmid, ht⟩ := ihf hd.1 (more.stops_products hs) hw
    obtain ⟨rest, hrest, hm⟩ := ihm hd.2 hs hmid
    refine ⟨rest, hrest, fun names => ?_⟩
    obtain ⟨between, ht⟩ := ht names
    obtain ⟨noted, hm⟩ := hm _ between
    exact ⟨noted, term_yields.2 ⟨_, between, mid, ht, hm⟩⟩
  | noProduct =>
    refine ⟨ts, hw, fun left names => ⟨names, ?_⟩⟩
    match ts with
    | [] => exact absurd rfl hw.ne_nil
    | ⟨l, p⟩ :: us =>
      exact (products_yields_of_none (productOperator?_of_stops hw hs)).2 ⟨rfl, rfl, rfl⟩
  | product f right more ihr ihm =>
    rw [Derivation.words, List.cons_append, List.append_assoc] at hw
    obtain ⟨p, us, rfl, hu⟩ := hw.of_word
    obtain ⟨mid, hmid, ht⟩ := ihr hd.1 (more.stops_products hs) hu
    obtain ⟨rest, hrest, hm⟩ := ihm hd.2 hs hmid
    refine ⟨rest, hrest, fun left names => ?_⟩
    obtain ⟨between, ht⟩ := ht names
    obtain ⟨noted, hm⟩ := hm _ between
    exact ⟨noted,
      (products_yields_of_some (productOperator?_symbol f)).2 ⟨_, between, mid, ht, hm⟩⟩
  | signed s inner ih =>
    obtain ⟨p, us, rfl, hu⟩ := hw.of_word
    obtain ⟨rest, hrest, hi⟩ := ih hd hs hu
    refine ⟨rest, hrest, fun names => ?_⟩
    obtain ⟨noted, hi⟩ := hi names
    exact ⟨noted, (unary_yields_of_some (sign?_symbol s)).2 ⟨_, hi, rfl⟩⟩
  | unsigned inner ih =>
    obtain ⟨rest, hrest, hi⟩ := ih hd hs hw
    refine ⟨rest, hrest, fun names => ?_⟩
    obtain ⟨noted, hi⟩ := hi names
    match ts with
    | [] => exact absurd rfl hw.ne_nil
    | ⟨l, p⟩ :: us => exact ⟨noted, (unary_yields_of_none (sign?_of_power inner hw)).2 hi⟩
  | base b ih =>
    obtain ⟨rest, hrest, hb⟩ := ih hd (hs.mono (by decide)) hw
    refine ⟨rest, hrest, fun names => ?_⟩
    obtain ⟨noted, hb⟩ := hb names
    exact ⟨noted, power_yields.2 (Or.inl ⟨hb, hrest.ne_symbol hs (by decide)⟩)⟩
  | raised b exponent ihb ihe =>
    rw [Derivation.words, List.append_assoc] at hw
    obtain ⟨mid, hmid, hb⟩ := ihb hd.1 (.symbol (by decide)) hw
    obtain ⟨p, next, rfl, hnext⟩ := hmid.of_word
    obtain ⟨rest, hrest, he⟩ := ihe hd.2 hs hnext
    refine ⟨rest, hrest, fun names => ?_⟩
    obtain ⟨between, hb⟩ := hb names
    obtain ⟨noted, he⟩ := he between
    exact ⟨noted, power_yields.2 (Or.inr ⟨_, between, p, next, _, hb, he, rfl⟩)⟩
  | number x =>
    obtain ⟨p, us, rfl, hu⟩ := hw.of_word
    exact ⟨us, hu, fun names => ⟨names, primary_yields_number.2 ⟨rfl, rfl, rfl⟩⟩⟩
  | name n =>
    obtain ⟨p, us, rfl, hu⟩ := hw.of_word
    exact ⟨us, hu, fun names => ⟨note names n, primary_yields_identifier.2
      (Or.inl ⟨hu.ne_nil, hu.ne_symbol hs (by decide), hd, rfl, rfl, rfl⟩)⟩⟩
  | operand w =>
    obtain ⟨p, us, rfl, hu⟩ := hw.of_word
    exact ⟨us, hu, fun names => ⟨note names (spelling w), primary_yields_identifier.2
      (Or.inl ⟨hu.ne_nil, hu.ne_symbol hs (by decide), hf w, rfl, rfl, rfl⟩)⟩⟩
  | group inner ih =>
    rw [Derivation.words, List.cons_append, List.append_assoc] at hw
    obtain ⟨p, us, rfl, hu⟩ := hw.of_word
    obtain ⟨mid, hmid, hi⟩ := ih hd (.symbol (by decide)) hu
    obtain ⟨q, rest, rfl, hrest⟩ := hmid.of_word
    refine ⟨rest, hrest, fun names => ?_⟩
    obtain ⟨noted, hi⟩ := hi names
    exact ⟨noted, primary_yields_openParen.2 ⟨_, q, hi, rfl⟩⟩
  | call n args ih =>
    obtain ⟨⟨f, hn, ha⟩, hargs⟩ := hd
    rw [Derivation.words, List.cons_append, List.cons_append, List.append_assoc] at hw
    obtain ⟨p, us, rfl, hu⟩ := hw.of_word
    obtain ⟨q, start, rfl, hstart⟩ := hu.of_word
    obtain ⟨mid, hmid, hes⟩ := ih hargs (.symbol (by decide)) hstart
    obtain ⟨q', rest, rfl, hrest⟩ := hmid.of_word
    refine ⟨rest, hrest, fun names => ?_⟩
    obtain ⟨noted, hes⟩ := hes names
    refine ⟨noted, primary_yields_identifier.2
      (Or.inr ⟨q, start, f, _, q', rfl, hn, hes, ?_, ?_⟩)⟩
    · rw [Derivation.length_tree]
      exact ha
    · rw [find?_name hn]
      rfl
  | lastArgument last ih =>
    obtain ⟨rest, hrest, hl⟩ := ih hd (hs.mono (by decide)) hw
    refine ⟨rest, hrest, fun names => ?_⟩
    obtain ⟨noted, hl⟩ := hl names
    exact ⟨noted, expressions_yields.2
      (Or.inl ⟨_, hl, hrest.ne_symbol hs (by decide), rfl⟩)⟩
  | argument first more ihf ihm =>
    rw [Derivation.words, List.append_assoc] at hw
    obtain ⟨mid, hmid, he⟩ := ihf hd.1 (.symbol (by decide)) hw
    obtain ⟨p, next, rfl, hnext⟩ := hmid.of_word
    obtain ⟨rest, hrest, hes⟩ := ihm hd.2 hs hnext
    refine ⟨rest, hrest, fun names => ?_⟩
    obtain ⟨between, he⟩ := he names
    obtain ⟨noted, hes⟩ := hes between
    exact ⟨noted, expressions_yields.2 (Or.inr ⟨_, between, p, next, _, he, hes, rfl⟩)⟩

end Parser

/-! ## Whole sentences -/

/-- Tokens that spell a sentence parse as the tree of its derivation, and do not parse if it has
none. -/
theorem parseTokens_eq_ok_iff {spelling : ω → Text}
    (hf : ∀ w, Builtin.find? (spelling w) = none) {ws : List (Word ω)} {ts : List Token}
    (hw : Spells spelling ws ts) (hfin : .lexeme .finish ∉ ws) {e : Expr} :
    parseTokens ts = .ok e ↔ ∃ d : Derivation ω .expression,
      d.words = ws ∧ d.Admissible ∧ d.tree (fun w => .name (spelling w)) = e := by
  rw [parseTokens_eq_ok_iff_yields]
  constructor
  · rintro ⟨noted, p, more, h⟩
    obtain ⟨d, hd, rfl, ws', rfl, hw'⟩ := Parser.expression_sound hf h hw
    rcases hw'.cons with ⟨rfl, -, -⟩ | ⟨w, vs, rfl, hl, -⟩
    · exact ⟨d, (List.append_nil _).symm, hd, rfl⟩
    · cases w with
      | operand w => cases hl
      | lexeme l =>
        obtain rfl : l = .finish := hl
        exact absurd (List.mem_append_right _ List.mem_cons_self) hfin
  · rintro ⟨d, rfl, hd, rfl⟩
    have hw' : Spells spelling (d.words ++ []) ts := by rwa [List.append_nil]
    obtain ⟨rest, hrest, h⟩ :=
      Parser.reads_of_derivation hf d hd (.nil _) hw'
    obtain ⟨noted, h⟩ := h []
    match rest with
    | [] => exact absurd rfl hrest.ne_nil
    | ⟨l, p⟩ :: more =>
      rcases hrest.cons with ⟨-, rfl, rfl⟩ | ⟨w, vs, e, -⟩
      · exact ⟨noted, p, [], h⟩
      · cases e

/-- The tokens of a text spell a sentence without operands. -/
theorem spells_of_tokenize {t : Text} {ts : List Token} (h : tokenize t = .ok ts) :
    ∃ ws : List (Word Empty), Spells Empty.elim ws ts ∧ .lexeme .finish ∉ ws := by
  obtain ⟨ls, e, hls⟩ := lexemes_of_tokenizeFrom h
  refine ⟨ls.map .lexeme, ?_, ?_⟩
  · rw [Spells, e, List.map_map]
    congr 1
    exact (List.map_id ls).symm
  · intro hm
    obtain ⟨l, hl, e⟩ := List.mem_map.1 hm
    cases e
    exact hls hl

/-- A text that is lexed as the words of a sentence has tokens that spell it. -/
theorem spells_of_lexes {spelling : ω → Text} {ws : List (Word ω)} {t : Text}
    (h : Lexes t [] (some (ws.map (Word.spelled spelling)))) :
    ∃ ts, tokenize t = .ok ts ∧ Spells spelling ws ts ∧ .lexeme .finish ∉ ws := by
  obtain ⟨ts, hts, -, he⟩ := h 0
  rw [List.append_nil, tokenizeFrom] at he
  have hspells : ∀ p, Spells spelling ws (ts ++ [⟨.finish, p⟩]) := fun p => by
    rw [Spells, List.map_append, hts]
    rfl
  refine ⟨_, he, hspells _, fun hm => ?_⟩
  obtain ⟨ls, e, hls⟩ := lexemes_of_tokenizeFrom he
  have e : ws.map (Word.spelled spelling) = ls := List.append_cancel_right ((hspells _).symm.trans e)
  exact hls (e ▸ List.mem_map.2 ⟨_, hm, rfl⟩)

theorem Spells.unique {spelling : ω → Text} {ws ws' : List (Word ω)} {ts : List Token}
    (hsp : Function.Injective (Word.spelled spelling)) (h : Spells spelling ws ts)
    (h' : Spells spelling ws' ts) : ws = ws' := by
  have e := List.append_cancel_right (h.symm.trans h')
  exact (List.map_inj_right fun _ _ e => hsp e).1 e

theorem Word.spelled_elim_injective : Function.Injective (Word.spelled Empty.elim) := by
  rintro (l | w) (l' | w') h
  · exact congrArg Word.lexeme h
  · exact w'.elim
  · exact w.elim
  · exact w.elim

theorem not_parseTokens_finish (p : Nat) (e : Expr) : parseTokens [⟨.finish, p⟩] ≠ .ok e := by
  intro h
  obtain ⟨noted, q, more, he⟩ := parseTokens_eq_ok_iff_yields.1 h
  obtain ⟨e', noted', rest, hp⟩ := Parser.exists_primary_yields rfl he
  exact Parser.not_primary_yields_finish hp

/-- A text parses as its tokens do. -/
theorem parse_eq_ok_iff {t : Text} {ts : List Token} (ht : tokenize t = .ok ts) (e : Expr) :
    parse t = .ok e ↔ parseTokens ts = .ok e := by
  rw [parse_eq]
  split
  · rename_i hb
    rw [tokenize, tokenizeFrom_of_isBlank hb] at ht
    cases ht
    constructor
    · intro h; cases h
    · intro h; exact absurd h (not_parseTokens_finish _ e)
  · rw [ht]

/-- The parser accepts the tokens of a text exactly when they are, up to the end, the words of an
admissible derivation; then its answer is the tree of that derivation, and there is no other
derivation. A text parses as its tokens do. -/
theorem parse_iff_derivation (t : Text) (ts : List Token) (ht : tokenize t = .ok ts) :
    (∀ e, parseTokens ts = .ok e ↔ ∃ d : Derivation Empty .expression,
      Spells Empty.elim d.words ts ∧ d.Admissible ∧ d.tree Empty.elim = e) ∧
    (∀ d d' : Derivation Empty .expression,
      Spells Empty.elim d.words ts → Spells Empty.elim d'.words ts → d = d') ∧
    ∀ e, parse t = .ok e ↔ parseTokens ts = .ok e := by
  refine ⟨fun e => ?_, fun d d' h h' => ?_, parse_eq_ok_iff ht⟩
  · obtain ⟨ws, hws, hfin⟩ := spells_of_tokenize ht
    have hleaf : (fun w : Empty => Expr.name w.elim) = Empty.elim := funext fun w => w.elim
    rw [parseTokens_eq_ok_iff (fun w => w.elim) hws hfin, hleaf]
    constructor
    · rintro ⟨d, rfl, hd, he⟩
      exact ⟨d, hws, hd, he⟩
    · rintro ⟨d, hd, ha, he⟩
      exact ⟨d, hd.unique Word.spelled_elim_injective hws, ha, he⟩
  · exact Derivation.eq_of_words_eq (h.unique Word.spelled_elim_injective h')

/-- In `-a^b-MAX(c)*d` the sign stands before the whole power, and the product within the
difference. -/
theorem parse_signed_power_minus_product :
    ∃ ts, tokenize "-a^b-MAX(c)*d" = .ok ts ∧ parse "-a^b-MAX(c)*d" =
      .ok (.binary .sub (.sign .minus (.binary .pow (.name "a") (.name "b")))
        (.binary .mul (.call "max" [.name "c"]) (.name "d"))) := by
  have ht : tokenize "-a^b-MAX(c)*d" = .ok [⟨.symbol .minus, 0⟩, ⟨.identifier "a", 1⟩,
      ⟨.symbol .caret, 2⟩, ⟨.identifier "b", 3⟩, ⟨.symbol .minus, 4⟩, ⟨.identifier "MAX", 5⟩,
      ⟨.symbol .openParen, 8⟩, ⟨.identifier "c", 9⟩, ⟨.symbol .closeParen, 10⟩,
      ⟨.symbol .star, 11⟩, ⟨.identifier "d", 12⟩, ⟨.finish, 13⟩] := by
    with_unfolding_all rfl
  obtain ⟨hderived, -, hparse⟩ := parse_iff_derivation _ _ ht
  refine ⟨_, ht, (hparse _).2 ((hderived _).2 ⟨
    .expression
      (.term (.signed .minus (.unsigned (.raised (.name "a") (.unsigned (.base (.name "b"))))))
        .noProduct)
      (.sum .minus
        (.term
          (.unsigned (.base (.call "MAX" (.lastArgument (.expression
            (.term (.unsigned (.base (.name "c"))) .noProduct) .noSum)))))
          (.product .times (.unsigned (.base (.name "d"))) .noProduct))
        .noSum), rfl, ?_, rfl⟩)⟩
  simp only [Derivation.Admissible, Derivation.count, and_true]
  exact ⟨by decide, ⟨⟨.max, by decide, by decide⟩, by decide⟩, by decide⟩

end VirtualChannels.Formula
