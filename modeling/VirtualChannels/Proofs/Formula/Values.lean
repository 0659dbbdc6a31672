import VirtualChannels.Proofs.Formula.Grammar

/-
  The value of a derivation. If the operands are names that a scope gives a value, and all other
  names are of constants and have no value in the scope, then the expression has the value that
  it has with numbers in the place of the operands (`Derivation.sameMeaning`).
-/

namespace VirtualChannels

theorem CodeUnit.lowerAscii_lowerAscii (u : CodeUnit) : u.lowerAscii.lowerAscii = u.lowerAscii := by
  have hlower : u.lowerAscii.isUpper = false := by
    rw [← Bool.not_eq_true]
    unfold lowerAscii
    split
    · rename_i h
      simp only [isUpper, Bool.and_eq_true, decide_eq_true_eq, UInt16.le_iff_toNat_le,
        UInt16.toNat_add] at h ⊢
      simp only [UInt16.reduceToNat] at h ⊢
      omega
    · rename_i h
      exact h
  rw [CodeUnit.lowerAscii.eq_def u.lowerAscii, hlower]
  rfl

theorem Text.lowerAscii_lowerAscii (t : Text) : t.lowerAscii.lowerAscii = t.lowerAscii := by
  rw [Text.lowerAscii, Text.lowerAscii, List.map_map]
  exact List.map_congr_left fun u _ => u.lowerAscii_lowerAscii

namespace Formula

theorem Builtin.find?_lowerAscii (n : Text) : Builtin.find? n.lowerAscii = Builtin.find? n := by
  rw [Builtin.find?, Text.lowerAscii_lowerAscii]
  rfl

variable {ω : Type}

/-- What a word must mean in a scope: an operand its value, another name that is no function
its constant. -/
def Word.Meant (s : Scope) (spelling : ω → Text) (value : ω → Float) : Word ω → Prop
  | operand w => s (spelling w) = some (value w)
  | lexeme (.identifier n) =>
    Builtin.find? n = none → s n = none ∧ (Constant.find? n).isSome = true
  | lexeme _ => True

/-- Two expressions have one value, the second one without a scope. -/
def SameValue (s : Scope) (e e' : Expr) : Prop :=
  ∃ v, e.eval s = .ok v ∧ e'.eval (fun _ => none) = .ok v

/-- Two phrases mean one value, or give one where they are given one. -/
def SameMeaning (s : Scope) : (c : Category) → c.Tree → c.Tree → Prop
  | .sums, t, t' | .products, t, t' => ∀ e e', SameValue s e e' → SameValue s (t e) (t' e')
  | .arguments, es, es' =>
    ∃ vs, Expr.evalAll s es = .ok vs ∧ Expr.evalAll (fun _ => none) es' = .ok vs
  | .expression, e, e' | .term, e, e' | .unary, e, e' | .power, e, e' | .primary, e, e' =>
    SameValue s e e'

theorem SameValue.binary {s : Scope} {e e' f f' : Expr} (op : Operator) (h : SameValue s e e')
    (h' : SameValue s f f') : SameValue s (.binary op e f) (.binary op e' f') := by
  obtain ⟨v, he, he'⟩ := h
  obtain ⟨w, hf, hf'⟩ := h'
  exact ⟨op.apply v w, by rw [Expr.eval, he, hf], by rw [Expr.eval, he', hf']⟩

namespace Derivation

/-- With operands spelled by names a phrase means what it means with their values. -/
theorem sameMeaning {s : Scope} {spelling : ω → Text} {value : ω → Float} {c : Category}
    (d : Derivation ω c) (hd : d.Admissible) (hw : ∀ w ∈ d.words, w.Meant s spelling value) :
    SameMeaning s c (d.tree fun w => .name (spelling w)) (d.tree fun w => .number (value w)) := by
  induction d with
  | expression first more ihf ihm =>
    rw [words, List.forall_mem_append] at hw
    exact ihm hd.2 hw.2 _ _ (ihf hd.1 hw.1)
  | noSum => exact fun _ _ h => h
  | sum p right more ihr ihm =>
    rw [words, List.forall_mem_cons, List.forall_mem_append] at hw
    exact fun _ _ h => ihm hd.2 hw.2.2 _ _ (h.binary _ (ihr hd.1 hw.2.1))
  | term first more ihf ihm =>
    rw [words, List.forall_mem_append] at hw
    exact ihm hd.2 hw.2 _ _ (ihf hd.1 hw.1)
  | noProduct => exact fun _ _ h => h
  | product f right more ihr ihm =>
    rw [words, List.forall_mem_cons, List.forall_mem_append] at hw
    exact fun _ _ h => ihm hd.2 hw.2.2 _ _ (h.binary _ (ihr hd.1 hw.2.1))
  | signed p inner ih =>
    rw [words, List.forall_mem_cons] at hw
    obtain ⟨v, he, he'⟩ := ih hd hw.2
    exact ⟨p.apply v, by rw [tree, Expr.eval, he], by rw [tree, Expr.eval, he']⟩
  | unsigned inner ih => exact ih hd hw
  | base b ih => exact ih hd hw
  | raised b exponent ihb ihe =>
    rw [words, List.forall_mem_append, List.forall_mem_cons] at hw
    exact (ihb hd.1 hw.1).binary _ (ihe hd.2 hw.2.2)
  | number x => exact ⟨x, rfl, rfl⟩
  | name n =>
    obtain ⟨hs, hc⟩ := hw _ List.mem_cons_self hd
    obtain ⟨k, hk⟩ := Option.isSome_iff_exists.1 hc
    refine ⟨k.value, ?_, ?_⟩
    · rw [tree, Expr.eval, resolve, hs, hk]
      rfl
    · rw [tree, Expr.eval, resolve, hk]
      rfl
  | operand w =>
    refine ⟨value w, ?_, rfl⟩
    have hv : s (spelling w) = some (value w) := hw _ List.mem_cons_self
    rw [tree, Expr.eval, resolve, hv]
  | group inner ih =>
    rw [words, List.forall_mem_cons, List.forall_mem_append] at hw
    exact ih hd hw.2.1
  | call n args ih =>
    obtain ⟨⟨f, hn, -⟩, hargs⟩ := hd
    rw [words, List.forall_mem_cons, List.forall_mem_cons, List.forall_mem_append] at hw
    obtain ⟨vs, he, he'⟩ := ih hargs hw.2.2.1
    refine ⟨f.apply vs, ?_, ?_⟩
    · rw [tree, Expr.eval, Builtin.find?_lowerAscii, hn]
      dsimp only
      rw [he]
    · rw [tree, Expr.eval, Builtin.find?_lowerAscii, hn]
      dsimp only
      rw [he']
  | lastArgument last ih =>
    obtain ⟨v, he, he'⟩ := ih hd hw
    exact ⟨[v], by rw [tree, Expr.evalAll, he, Expr.evalAll],
      by rw [tree, Expr.evalAll, he', Expr.evalAll]⟩
  | argument first more ihf ihm =>
    rw [words, List.forall_mem_append, List.forall_mem_cons] at hw
    obtain ⟨v, he, he'⟩ := ihf hd.1 hw.1
    obtain ⟨vs, hes, hes'⟩ := ihm hd.2 hw.2.2
    exact ⟨v :: vs, by rw [tree, Expr.evalAll, he, hes], by rw [tree, Expr.evalAll, he', hes']⟩

end Derivation

end Formula

end VirtualChannels
