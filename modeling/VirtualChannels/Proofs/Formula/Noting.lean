import Mathlib.Data.List.Induction
import VirtualChannels.Proofs.Formula.Readers

/-
  The names that are noted when a formula is read. Each reader notes the names of what it reads,
  from left to right (`names_of_expression`). So a compiled formula is the expression that the
  text holds, with its distinct names in order of first use (`compile_eq`).
-/

namespace VirtualChannels.Formula

namespace Parser

/-- Names that are noted one after another. -/
def noteAll (names more : List Text) : List Text := more.foldl note names

theorem noteAll_append (names more others : List Text) :
    noteAll names (more ++ others) = noteAll (noteAll names more) others := List.foldl_append

mutual

theorem names_of_expression {names noted : List Text} {ts rest : List Token} {e : Expr}
    (h : Yields (expression names ts) e noted rest) : noted = noteAll names e.names := by
  obtain ⟨left, between, mid, ht, hs⟩ := expression_yields.1 h
  have hlt : mid.length < ts.length := ht.property
  rw [names_of_term ht] at hs
  exact names_of_sums hs
termination_by 6 * ts.length + 4

theorem names_of_sums {names noted : List Text} {ts rest : List Token} {left e : Expr}
    (h : Yields (sums left (noteAll names left.names) ts) e noted rest) :
    noted = noteAll names e.names := by
  match ts with
  | [] =>
    rw [Yields, sums] at h
    cases h
    rfl
  | token :: us =>
    cases ho : sumOperator? token.lexeme with
    | none =>
      obtain ⟨rfl, rfl, rfl⟩ := (sums_yields_of_none ho).1 h
      rfl
    | some op =>
      obtain ⟨right, between, mid, ht, hs⟩ := (sums_yields_of_some ho).1 h
      have hlt : mid.length < us.length := ht.property
      rw [names_of_term ht, ← noteAll_append] at hs
      exact names_of_sums hs
termination_by 6 * ts.length

theorem names_of_term {names noted : List Text} {ts rest : List Token} {e : Expr}
    (h : Yields (term names ts) e noted rest) : noted = noteAll names e.names := by
  obtain ⟨left, between, mid, hu, hp⟩ := term_yields.1 h
  have hlt : mid.length < ts.length := hu.property
  rw [names_of_unary hu] at hp
  exact names_of_products hp
termination_by 6 * ts.length + 3

theorem names_of_products {names noted : List Text} {ts rest : List Token} {left e : Expr}
    (h : Yields (products left (noteAll names left.names) ts) e noted rest) :
    noted = noteAll names e.names := by
  match ts with
  | [] =>
    rw [Yields, products] at h
    cases h
    rfl
  | token :: us =>
    cases ho : productOperator? token.lexeme with
    | none =>
      obtain ⟨rfl, rfl, rfl⟩ := (products_yields_of_none ho).1 h
      rfl
    | some op =>
      obtain ⟨right, between, mid, hu, hp⟩ := (products_yields_of_some ho).1 h
      have hlt : mid.length < us.length := hu.property
      rw [names_of_unary hu, ← noteAll_append] at hp
      exact names_of_products hp
termination_by 6 * ts.length

theorem names_of_unary {names noted : List Text} {ts rest : List Token} {e : Expr}
    (h : Yields (unary names ts) e noted rest) : noted = noteAll names e.names := by
  match ts with
  | [] =>
    rw [Yields, unary] at h
    exact names_of_power h
  | token :: us =>
    cases hs : sign? token.lexeme with
    | none => exact names_of_power ((unary_yields_of_none hs).1 h)
    | some s =>
      obtain ⟨inner, hu, rfl⟩ := (unary_yields_of_some hs).1 h
      rw [names_of_unary hu, Expr.names]
termination_by 6 * ts.length + 2

theorem names_of_power {names noted : List Text} {ts rest : List Token} {e : Expr}
    (h : Yields (power names ts) e noted rest) : noted = noteAll names e.names := by
  rcases power_yields.1 h with ⟨hb, -⟩ | ⟨b, between, p, next, exponent, hb, hx, rfl⟩
  · exact names_of_primary hb
  · have hlt : next.length + 1 < ts.length := hb.property
    rw [names_of_unary hx, names_of_primary hb, Expr.names, noteAll_append]
termination_by 6 * ts.length + 1

theorem names_of_primary {names noted : List Text} {ts rest : List Token} {e : Expr}
    (h : Yields (primary names ts) e noted rest) : noted = noteAll names e.names := by
  match ts with
  | [] =>
    rw [Yields, primary] at h
    cases h
  | ⟨.number x, p⟩ :: us =>
    obtain ⟨rfl, rfl, rfl⟩ := primary_yields_number.1 h
    rfl
  | ⟨.finish, p⟩ :: us => exact absurd h not_primary_yields_finish
  | ⟨.symbol s, p⟩ :: us =>
    by_cases hs : s = .openParen
    · subst hs
      obtain ⟨inner, q, he, rfl⟩ := primary_yields_openParen.1 h
      rw [names_of_expression he, Expr.names]
    · exact absurd h (not_primary_yields_symbol hs)
  | ⟨.identifier n, p⟩ :: us =>
    rcases primary_yields_identifier.1 h with
      ⟨-, -, -, rfl, rfl, -⟩ | ⟨q, start, f, args, q', rfl, -, hes, -, rfl⟩
    · rfl
    · exact names_of_expressions hes
termination_by 6 * ts.length

theorem names_of_expressions {names noted : List Text} {ts rest : List Token} {es : List Expr}
    (h : Yields (expressions names ts) es noted rest) :
    noted = noteAll names (Expr.namesAll es) := by
  rcases expressions_yields.1 h with ⟨e, he, -, rfl⟩ | ⟨e, between, p, next, others, he, hes, rfl⟩
  · rw [names_of_expression he, Expr.namesAll, Expr.namesAll, List.append_nil]
  · have hlt : next.length + 1 < ts.length := he.property
    rw [names_of_expressions hes, names_of_expression he, Expr.namesAll, noteAll_append]
termination_by 6 * ts.length + 5

end

/-- One more name is another distinct one unless it is among the others. -/
theorem eraseDups_append_singleton (names : List Text) (name : Text) :
    (names ++ [name]).eraseDups = note names.eraseDups name := by
  rw [List.eraseDups_append, note]
  by_cases hname : name ∈ names
  · rw [if_pos (List.mem_eraseDups.2 hname)]
    simp [List.removeAll, hname]
  · rw [if_neg fun hmem => hname (List.mem_eraseDups.1 hmem)]
    simp [List.removeAll, hname, List.eraseDups_cons]

/-- What is noted from the beginning on are the distinct names. -/
theorem noteAll_nil (names : List Text) : noteAll [] names = names.eraseDups := by
  induction names using List.reverseRecOn with
  | nil => rfl
  | append_singleton names name ih =>
    rw [noteAll_append, ih, eraseDups_append_singleton]
    rfl

end Parser

/-- What has been noted when the tokens are compiled are the distinct names of the expression. -/
theorem names_of_compileTokens {ts : List Token} {c : Compiled} (h : compileTokens ts = .ok c) :
    c.names = c.expr.distinctNames := by
  obtain ⟨p, more, he⟩ := compileTokens_eq_ok_iff.1 h
  rw [Parser.names_of_expression he, Parser.noteAll_nil]
  rfl

theorem names_of_compile {t : Text} {c : Compiled} (h : compile t = .ok c) :
    c.names = c.expr.distinctNames := by
  unfold compile at h
  split at h
  · cases h
  · split at h
    · cases h
    · exact names_of_compileTokens h

/-- A compiled text is the expression that it holds, with its distinct names in order of first
use. -/
theorem compile_eq (t : Text) : compile t = (parse t).map fun e => ⟨e, e.distinctNames⟩ := by
  unfold parse
  cases hc : compile t with
  | error e => rfl
  | ok c =>
    show Except.ok c = .ok ⟨c.expr, c.expr.distinctNames⟩
    rw [← names_of_compile hc]

end VirtualChannels.Formula
