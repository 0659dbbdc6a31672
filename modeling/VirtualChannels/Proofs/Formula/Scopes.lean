import VirtualChannels.Formula.Expr

/-
  What the outcome of an expression depends on. Whether it has a value, and the error if it has
  none, depends on the names that have a value and not on the values (`eval_alike`).
-/

namespace VirtualChannels.Formula

/-- The same names have a value. -/
def Scope.SameNames (s s' : Scope) : Prop := ∀ n, (s n).isSome = (s' n).isSome

/-- Both are the same error, or both have a value. -/
def Alike {α : Type} (a b : Except EvalError α) : Prop :=
  (∃ err, a = .error err ∧ b = .error err) ∨ ∃ x y, a = .ok x ∧ b = .ok y

namespace Alike

variable {α : Type} {a b : Except EvalError α}

theorem ok (x y : α) : Alike (.ok x) (.ok y) := Or.inr ⟨x, y, rfl, rfl⟩

theorem error (err : EvalError) : Alike (.error err : Except EvalError α) (.error err) :=
  Or.inl ⟨err, rfl, rfl⟩

theorem error_iff (h : Alike a b) (err : EvalError) : a = .error err ↔ b = .error err := by
  rcases h with ⟨err', rfl, rfl⟩ | ⟨x, y, rfl, rfl⟩
  · exact Iff.rfl
  · constructor
    · intro h; cases h
    · intro h; cases h

theorem ok_iff (h : Alike a b) : (∃ x, a = .ok x) ↔ ∃ y, b = .ok y := by
  rcases h with ⟨err, rfl, rfl⟩ | ⟨x, y, rfl, rfl⟩
  · constructor
    · rintro ⟨x, h⟩; cases h
    · rintro ⟨x, h⟩; cases h
  · exact ⟨fun _ => ⟨y, rfl⟩, fun _ => ⟨x, rfl⟩⟩

end Alike

theorem none_or_some_of_isSome_eq {a b : Option Float} (h : a.isSome = b.isSome) :
    (a = none ∧ b = none) ∨ ∃ x y, a = some x ∧ b = some y := by
  cases a with
  | none => exact Or.inl ⟨rfl, Option.isNone_iff_eq_none.1 (Option.isSome_eq_false_iff.1 h.symm)⟩
  | some x =>
    obtain ⟨y, hy⟩ := Option.isSome_iff_exists.1 h.symm
    exact Or.inr ⟨x, y, rfl, hy⟩

theorem Scope.SameNames.resolve {s s' : Scope} (h : s.SameNames s') (n : Text) :
    (Formula.resolve s n).isSome = (Formula.resolve s' n).isSome := by
  unfold Formula.resolve
  rcases none_or_some_of_isSome_eq (h n) with ⟨hs, hs'⟩ | ⟨x, y, hs, hs'⟩
  · rw [hs, hs']
  · rw [hs, hs']
    rfl

namespace Expr

variable {s s' : Scope}

mutual

/-- Two scopes that give the same names a value give an expression the same error, or both a
value. -/
theorem eval_alike (h : s.SameNames s') : ∀ e : Expr, Alike (e.eval s) (e.eval s')
  | number x => .ok x x
  | name n => by
    simp only [eval]
    rcases none_or_some_of_isSome_eq (h.resolve n) with ⟨hs, hs'⟩ | ⟨x, y, hs, hs'⟩
    · rw [hs, hs']
      exact .error _
    · rw [hs, hs']
      exact .ok x y
  | group e => eval_alike h e
  | sign p e => by
    simp only [eval]
    rcases eval_alike h e with ⟨err, hs, hs'⟩ | ⟨x, y, hs, hs'⟩
    · rw [hs, hs']
      exact .error err
    · rw [hs, hs']
      exact .ok _ _
  | binary op left right => by
    simp only [eval]
    rcases eval_alike h left with ⟨err, hs, hs'⟩ | ⟨x, y, hs, hs'⟩
    · rw [hs, hs']
      exact .error err
    · rcases eval_alike h right with ⟨err, ht, ht'⟩ | ⟨x', y', ht, ht'⟩
      · rw [hs, hs', ht, ht']
        exact .error err
      · rw [hs, hs', ht, ht']
        exact .ok _ _
  | call function args => by
    simp only [eval]
    cases Builtin.find? function with
    | none => exact .error _
    | some f =>
      rcases evalAll_alike h args with ⟨err, hs, hs'⟩ | ⟨xs, ys, hs, hs'⟩
      · rw [hs, hs']
        exact .error err
      · rw [hs, hs']
        exact .ok _ _

theorem evalAll_alike (h : s.SameNames s') : ∀ es : List Expr, Alike (evalAll s es) (evalAll s' es)
  | [] => .ok [] []
  | e :: es => by
    simp only [evalAll]
    rcases eval_alike h e with ⟨err, hs, hs'⟩ | ⟨x, y, hs, hs'⟩
    · rw [hs, hs']
      exact .error err
    · rcases evalAll_alike h es with ⟨err, ht, ht'⟩ | ⟨xs, ys, ht, ht'⟩
      · rw [hs, hs', ht, ht']
        exact .error err
      · rw [hs, hs', ht, ht']
        exact .ok _ _

end

end Expr

end VirtualChannels.Formula
