import VirtualChannels.Formula.Token
import VirtualChannels.Proofs.Number.LongestNumeral
import VirtualChannels.Proofs.Reference.Identifiers

/-
  The tokens of a text. They end in the end, which stands nowhere else
  (`lexemes_of_tokenizeFrom`), and they begin no earlier than the text (`position_of_mem`). A
  symbol, a numeral or an identifier that nothing continues is one token (`Lexeme.Written`), a
  blank is none, and the tokens of what follows come after it (`Lexes`). A part of a text that
  is lexed apart from what follows can be lexed by itself (`Lexes.append`).
-/

namespace VirtualChannels

/-! ## Units -/

namespace CodeUnit

variable {u : CodeUnit}

theorem startsIdentifier_iff : u.startsIdentifier = true ↔
    (0x41 ≤ u.toNat ∧ u.toNat ≤ 0x5A) ∨ (0x61 ≤ u.toNat ∧ u.toNat ≤ 0x7A) ∨ u.toNat = 0x5F := by
  simp only [startsIdentifier, isLetter, isUpper, isLower, Bool.or_eq_true, Bool.and_eq_true,
    decide_eq_true_eq, beq_iff_eq, UInt16.le_iff_toNat_le, ← UInt16.toNat_inj]
  simp only [UInt16.reduceToNat]
  omega

theorem isDigit_iff : u.isDigit = true ↔ 0x30 ≤ u.toNat ∧ u.toNat ≤ 0x39 := by
  simp only [isDigit, Bool.and_eq_true, decide_eq_true_eq, UInt16.le_iff_toNat_le]
  simp only [UInt16.reduceToNat]

/-- Blanks lie below and above the printable units of the first block. -/
theorem isBlank_eq_false (h : 0x20 < u.toNat) (h' : u.toNat < 0x7F) : u.isBlank = false := by
  rw [← Bool.not_eq_true]
  simp only [isBlank, Bool.or_eq_true, Bool.and_eq_true, decide_eq_true_eq, beq_iff_eq,
    UInt16.le_iff_toNat_le, ← UInt16.toNat_inj]
  simp only [UInt16.reduceToNat]
  omega

theorem isDigit_eq_false (h : u.startsIdentifier = true) : u.isDigit = false := by
  have hs := startsIdentifier_iff.1 h
  rw [← Bool.not_eq_true, isDigit_iff]
  omega

end CodeUnit

namespace Numeral

/-- A numeral begins with a digit or with a point. -/
theorem length_eq_zero {u : CodeUnit} (hd : u.isDigit = false) (hp : u ≠ Decimal.point)
    (rest : Text) : length (u :: rest) = 0 := by
  have hmantissa : mantissaLength (u :: rest) = 0 := by
    simp only [mantissaLength, digitRun_eq_zero hd, List.drop_zero, beq_eq_false_iff_ne.2 hp,
      Bool.false_eq_true, if_false]
  unfold length
  rw [hmantissa]
  rfl

theorem head_of_length_ne_zero {u : CodeUnit} {rest : Text} (h : length (u :: rest) ≠ 0) :
    u.isDigit = true ∨ u = Decimal.point := by
  by_cases hd : u.isDigit = true
  · exact Or.inl hd
  · refine Or.inr (Decidable.byContradiction fun hp => h ?_)
    exact length_eq_zero (Bool.eq_false_iff.2 hd) hp rest

end Numeral

namespace Formula

theorem Symbol.ofUnit?_eq_none {u : CodeUnit} (h : ∀ s : Symbol, s.unit ≠ u) :
    ofUnit? u = none := by
  rw [ofUnit?, List.find?_eq_none]
  intro s _ hs
  exact h s (eq_of_beq hs)

theorem Symbol.ofUnit?_of_startsIdentifier {u : CodeUnit} (h : u.startsIdentifier = true) :
    ofUnit? u = none := by
  refine ofUnit?_eq_none fun s hs => ?_
  rw [← hs] at h
  cases s <;> revert h <;> decide

theorem Symbol.ofUnit?_of_isDigit_or_point {u : CodeUnit}
    (h : u.isDigit = true ∨ u = Decimal.point) : ofUnit? u = none := by
  refine ofUnit?_eq_none fun s hs => ?_
  rw [← hs] at h
  cases s <;> revert h <;> decide

theorem isBlank_of_startsIdentifier {u : CodeUnit} (h : u.startsIdentifier = true) :
    u.isBlank = false := by
  have hs := CodeUnit.startsIdentifier_iff.1 h
  exact CodeUnit.isBlank_eq_false (by omega) (by omega)

theorem isBlank_of_isDigit_or_point {u : CodeUnit} (h : u.isDigit = true ∨ u = Decimal.point) :
    u.isBlank = false := by
  rcases h with h | rfl
  · have hd := CodeUnit.isDigit_iff.1 h
    exact CodeUnit.isBlank_eq_false (by omega) (by omega)
  · decide

/-! ## The first token -/

namespace Lexeme

theorem first?_ne_finish {u : CodeUnit} {rest : Text} {more : Nat} :
    first? u rest ≠ some (.finish, more) := by
  intro h
  unfold first? at h
  split at h
  · cases h
  · dsimp only at h
    split at h
    · cases h
    · split at h
      · cases h
      · cases h

/-- A token fits in its text. -/
theorem first?_length {u : CodeUnit} {rest : Text} {l : Lexeme} {more : Nat}
    (h : first? u rest = some (l, more)) : more ≤ rest.length := by
  unfold first? at h
  split at h
  · cases h
    exact Nat.zero_le _
  · dsimp only at h
    split at h
    · cases h
      have := Numeral.length_le (u :: rest)
      rw [List.length_cons] at this
      omega
    · split at h
      · cases h
        exact (List.takeWhile_prefix _).length_le
      · cases h

theorem first?_identifier {u : CodeUnit} (h : u.startsIdentifier = true) (rest : Text) :
    first? u rest = some (.identifier (u :: rest.takeWhile CodeUnit.continuesIdentifier),
      (rest.takeWhile CodeUnit.continuesIdentifier).length) := by
  have hnumeral : Numeral.length (u :: rest) = 0 := by
    refine Numeral.length_eq_zero (CodeUnit.isDigit_eq_false h) ?_ rest
    rintro rfl
    revert h
    decide
  simp only [first?, Symbol.ofUnit?_of_startsIdentifier h, hnumeral, ne_eq, not_true, if_false, h,
    if_true]

theorem first?_number {u : CodeUnit} {rest : Text} (h : Numeral.length (u :: rest) ≠ 0) :
    first? u rest = some
      (.number (Decimal.read ((u :: rest).take (Numeral.length (u :: rest)))).toFloat,
        Numeral.length (u :: rest) - 1) := by
  have hu := Numeral.head_of_length_ne_zero h
  simp only [first?, Symbol.ofUnit?_of_isDigit_or_point hu, h, ne_eq, not_false_eq_true, if_true]

theorem first?_symbol {u : CodeUnit} {s : Symbol} (h : Symbol.ofUnit? u = some s) (rest : Text) :
    first? u rest = some (.symbol s, 0) := by
  rw [first?, h]

theorem first?_eq_none {u : CodeUnit} {rest : Text} (hs : Symbol.ofUnit? u = none)
    (hn : Numeral.length (u :: rest) = 0) (hi : u.startsIdentifier = false) :
    first? u rest = none := by
  simp only [first?, hs, hn, ne_eq, not_true, if_false, hi, Bool.false_eq_true]

end Lexeme

/-! ## The tokens from a position on -/

/-- The tokens of a text end in the end, which stands nowhere else. -/
theorem lexemes_of_tokenizeFrom {pos : Nat} {t : Text} {ts : List Token}
    (h : tokenizeFrom pos t = .ok ts) :
    ∃ ls, ts.map Token.lexeme = ls ++ [.finish] ∧ Lexeme.finish ∉ ls := by
  fun_induction tokenizeFrom pos t generalizing ts with
  | case1 pos =>
    cases h
    exact ⟨[], rfl, List.not_mem_nil⟩
  | case2 pos u rest hu ih => exact ih h
  | case3 => cases h
  | case4 => cases h
  | case5 pos u rest hu lexeme more hfirst tokens htokens ih =>
    cases h
    obtain ⟨ls, e, hls⟩ := ih htokens
    refine ⟨lexeme :: ls, by simp [e], ?_⟩
    intro hm
    rcases List.mem_cons.1 hm with hm | hm
    · subst hm
      exact Lexeme.first?_ne_finish hfirst
    · exact hls hm

/-- No token begins before the text. -/
theorem position_of_mem {pos : Nat} {t : Text} {ts : List Token}
    (h : tokenizeFrom pos t = .ok ts) {token : Token} (hm : token ∈ ts) :
    pos ≤ token.position := by
  fun_induction tokenizeFrom pos t generalizing ts with
  | case1 pos =>
    cases h
    rw [List.mem_singleton.1 hm]
  | case2 pos u rest hu ih => exact Nat.le_of_succ_le (ih h hm)
  | case3 => cases h
  | case4 => cases h
  | case5 pos u rest hu lexeme more hfirst tokens htokens ih =>
    cases h
    rcases List.mem_cons.1 hm with rfl | hm
    · exact Nat.le_refl _
    · have := ih htokens hm
      omega

/-- Blanks are passed over. -/
theorem tokenizeFrom_blanks {g : Text} (hg : g.isBlank = true) (pos : Nat) (x : Text) :
    tokenizeFrom pos (g ++ x) = tokenizeFrom (pos + g.length) x := by
  induction g generalizing pos with
  | nil => rfl
  | cons u g ih =>
    rw [Text.isBlank_cons] at hg
    rw [List.cons_append, tokenizeFrom, if_pos hg.1, ih hg.2, List.length_cons, Nat.add_right_comm,
      Nat.add_assoc]

theorem tokenizeFrom_of_isBlank {pos : Nat} {t : Text} (h : t.isBlank = true) :
    tokenizeFrom pos t = .ok [⟨.finish, pos + t.length⟩] := by
  have hblanks := tokenizeFrom_blanks h pos []
  rwa [List.append_nil, tokenizeFrom] at hblanks

theorem tokenizeFrom_cons {pos : Nat} {u : CodeUnit} {rest : Text} {l : Lexeme} {more : Nat}
    (hb : u.isBlank = false) (h : Lexeme.first? u rest = some (l, more)) :
    tokenizeFrom pos (u :: rest) =
      (tokenizeFrom (pos + 1 + more) (rest.drop more)).map (⟨l, pos⟩ :: ·) := by
  rw [tokenizeFrom, if_neg (by rw [hb]; exact Bool.false_ne_true), h]
  dsimp only
  cases tokenizeFrom (pos + 1 + more) (rest.drop more) <;> rfl

theorem tokenizeFrom_unexpected {pos : Nat} {u : CodeUnit} {rest : Text}
    (hb : u.isBlank = false) (h : Lexeme.first? u rest = none) :
    tokenizeFrom pos (u :: rest) = .error ⟨u, pos⟩ := by
  rw [tokenizeFrom, if_neg (by rw [hb]; exact Bool.false_ne_true), h]

theorem map_eq_ok {ε α β : Type} {f : α → β} {a : Except ε α} {y : β} (h : a.map f = .ok y) :
    ∃ x, a = .ok x ∧ f x = y := by
  cases a with
  | error e => cases h
  | ok x => exact ⟨x, rfl, Except.ok.inj h⟩

/-- An identifier is lexed with all that continues it. -/
theorem tokenizeFrom_identifier {p : Text} (hp : p.IsIdentifier) (pos : Nat) (y : Text) :
    tokenizeFrom pos (p ++ y) =
      (tokenizeFrom (pos + p.length + (y.takeWhile CodeUnit.continuesIdentifier).length)
          (y.dropWhile CodeUnit.continuesIdentifier)).map
        (⟨.identifier (p ++ y.takeWhile CodeUnit.continuesIdentifier), pos⟩ :: ·) := by
  obtain ⟨u, more, rfl, hu, hmore⟩ := hp
  rw [List.cons_append, tokenizeFrom_cons (isBlank_of_startsIdentifier hu)
    (Lexeme.first?_identifier hu _), List.takeWhile_append_of_pos hmore]
  have hdrop : (more ++ y).drop (more ++ y.takeWhile CodeUnit.continuesIdentifier).length =
      y.dropWhile CodeUnit.continuesIdentifier := by
    rw [List.length_append, ← List.drop_drop, List.drop_left, Text.drop_length_takeWhile]
  rw [hdrop, List.length_append, List.length_cons]
  congr 2
  omega

/-- An identifier is lexed as it is if nothing continues it. -/
theorem tokenizeFrom_identifier_stop {p : Text} (hp : p.IsIdentifier) (pos : Nat) {y : Text}
    (hy : ∀ u ∈ y.head?, u.continuesIdentifier = false) :
    tokenizeFrom pos (p ++ y) =
      (tokenizeFrom (pos + p.length) y).map (⟨.identifier p, pos⟩ :: ·) := by
  have htake : y.takeWhile CodeUnit.continuesIdentifier = [] :=
    Text.takeWhile_append_stop (s := []) (fun _ h => absurd h List.not_mem_nil) hy
  have hdrop : y.dropWhile CodeUnit.continuesIdentifier = y := by
    rw [← Text.drop_length_takeWhile, htake]
    rfl
  rw [tokenizeFrom_identifier hp, htake, hdrop, List.append_nil]
  rfl

/-! ## How lexemes are written -/

theorem Symbol.unit_of_ofUnit? {u : CodeUnit} {s : Symbol} (h : ofUnit? u = some s) : s.unit = u := by
  rw [ofUnit?] at h
  have hs := List.find?_some h
  exact eq_of_beq hs

theorem Symbol.ofUnit?_unit (s : Symbol) : ofUnit? s.unit = some s := by
  cases s <;> rfl

theorem Symbol.isBlank_unit (s : Symbol) : s.unit.isBlank = false := by
  cases s <;> decide

/-- The first text is a lexeme as it is written in front of the second one. -/
inductive Lexeme.Written : Lexeme → Text → Text → Prop
  | symbol (s : Symbol) (x : Text) : Written (.symbol s) [s.unit] x
  | number {w x : Text} (hne : w ≠ []) (hw : Numeral.length (w ++ x) = w.length) :
      Written (.number (Decimal.read w).toFloat) w x
  | identifier {n x : Text} (hn : n.IsIdentifier)
      (hx : ∀ u ∈ x.head?, u.continuesIdentifier = false) : Written (.identifier n) n x

namespace Lexeme

variable {l : Lexeme} {w x : Text}

theorem Written.ne_nil (h : Written l w x) : w ≠ [] := by
  cases h with
  | symbol s => exact List.cons_ne_nil _ _
  | number hne => exact hne
  | identifier hn => exact hn.ne_nil

/-- What is written as a lexeme is one token, and the tokens of what follows come after it. -/
theorem Written.tokenizeFrom_append (h : Written l w x) (pos : Nat) :
    tokenizeFrom pos (w ++ x) = (tokenizeFrom (pos + w.length) x).map (⟨l, pos⟩ :: ·) := by
  cases h with
  | symbol s =>
    exact tokenizeFrom_cons (Symbol.isBlank_unit s) (first?_symbol (Symbol.ofUnit?_unit s) x)
  | number hne hw =>
    obtain ⟨u, more, rfl⟩ := List.exists_cons_of_ne_nil hne
    have hpos : Numeral.length (u :: (more ++ x)) ≠ 0 := by
      rw [← List.cons_append, hw]
      exact Nat.succ_ne_zero _
    have hfirst := first?_number hpos
    rw [← List.cons_append, hw, List.take_left] at hfirst
    rw [List.cons_append, tokenizeFrom_cons
      (isBlank_of_isDigit_or_point (Numeral.head_of_length_ne_zero hpos)) hfirst, List.length_cons,
      Nat.add_sub_cancel, List.drop_left, Nat.add_right_comm, Nat.add_assoc]
  | identifier hn hx => exact tokenizeFrom_identifier_stop hn pos hx

end Lexeme

/-! ## Texts that are lexed apart from what follows -/

/-- The lexemes of a text without the end; none where no token begins at some unit. -/
def lexemes? (t : Text) : Option (List Lexeme) :=
  match tokenize t with
  | .ok ts => some (ts.map Token.lexeme).dropLast
  | .error _ => none

/-- In front of `y` the text `p` is lexed as the lexemes, and `y` as if it stood alone; or no
token begins at some unit of `p`. -/
def Lexes (p y : Text) : Option (List Lexeme) → Prop
  | some ls => ∀ pos, ∃ ts : List Token, ts.map Token.lexeme = ls ∧
      (∀ token ∈ ts, token.position < pos + p.length) ∧
      tokenizeFrom pos (p ++ y) = (tokenizeFrom (pos + p.length) y).map (ts ++ ·)
  | none => ∀ pos, ∃ e, tokenizeFrom pos (p ++ y) = .error e

/-- One list after another, if there are both. -/
def joined {α : Type} (a b : Option (List α)) : Option (List α) :=
  a.bind fun ls => b.map (ls ++ ·)

namespace Lexes

variable {p q y : Text}

theorem nil (y : Text) : Lexes [] y (some []) := by
  intro pos
  refine ⟨[], rfl, fun _ h => absurd h List.not_mem_nil, ?_⟩
  show tokenizeFrom pos y = (tokenizeFrom pos y).map ([] ++ ·)
  cases tokenizeFrom pos y <;> rfl

theorem append {a b : Option (List Lexeme)} (hp : Lexes p (q ++ y) a) (hq : Lexes q y b) :
    Lexes (p ++ q) y (joined a b) := by
  cases a with
  | none =>
    intro pos
    rw [List.append_assoc]
    exact hp pos
  | some ls =>
    cases b with
    | none =>
      intro pos
      obtain ⟨ts, -, -, e⟩ := hp pos
      obtain ⟨err, he⟩ := hq (pos + p.length)
      rw [List.append_assoc, e, he]
      exact ⟨err, rfl⟩
    | some ls' =>
      intro pos
      obtain ⟨ts, rfl, hts, e⟩ := hp pos
      obtain ⟨ts', rfl, hts', e'⟩ := hq (pos + p.length)
      rw [List.append_assoc, e, e', List.length_append, ← Nat.add_assoc]
      refine ⟨ts ++ ts', List.map_append, fun token hm => ?_, ?_⟩
      · rcases List.mem_append.1 hm with hm | hm
        · exact Nat.lt_add_right _ (hts token hm)
        · exact hts' token hm
      · cases tokenizeFrom (pos + p.length + q.length) y with
        | error err => rfl
        | ok us => exact congrArg Except.ok (List.append_assoc ts ts' us).symm

theorem lexemes?_eq {o : Option (List Lexeme)} (h : Lexes p [] o) : lexemes? p = o := by
  cases o with
  | none =>
    obtain ⟨e, he⟩ := h 0
    rw [List.append_nil] at he
    rw [lexemes?, tokenize, he]
  | some ls =>
    obtain ⟨ts, rfl, -, e⟩ := h 0
    rw [List.append_nil] at e
    rw [lexemes?, tokenize, e, tokenizeFrom]
    simp [Except.map]

/-- What is written as a lexeme is one token, and what follows is lexed as if it stood alone. -/
theorem of_written {l : Lexeme} (h : l.Written p y) : Lexes p y (some [l]) := by
  intro pos
  refine ⟨[⟨l, pos⟩], rfl, fun token hm => ?_, h.tokenizeFrom_append pos⟩
  rw [List.mem_singleton.1 hm]
  exact Nat.lt_add_of_pos_right (List.length_pos_iff.2 h.ne_nil)

theorem of_isBlank {u : CodeUnit} (hb : u.isBlank = true) (y : Text) : Lexes [u] y (some []) := by
  intro pos
  refine ⟨[], rfl, fun _ h => absurd h List.not_mem_nil, ?_⟩
  rw [List.cons_append, tokenizeFrom, if_pos hb]
  show tokenizeFrom (pos + 1) y = (tokenizeFrom (pos + 1) y).map ([] ++ ·)
  cases tokenizeFrom (pos + 1) y <;> rfl

theorem unexpected {u : CodeUnit} (hb : u.isBlank = false)
    (h : Lexeme.first? u (p ++ y) = none) : Lexes (u :: p) y none := by
  intro pos
  exact ⟨_, tokenizeFrom_unexpected hb h⟩

end Lexes

end Formula

end VirtualChannels
