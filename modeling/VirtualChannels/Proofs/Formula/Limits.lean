import VirtualChannels.Formula.Cursor

/-
  The limit of a parse. A reading with a higher limit does what it does with a lower one, unless
  the lower one stops it (`Within`). So a call that its limit does not stop does the same with
  every higher one (`within_call`).
-/

namespace VirtualChannels.Formula.Cursor

namespace Reading

variable {α β : Type} {first : Reading α} {next : α → Reading β} {s s' : State}

theorem bind_of_ok {a : α} (h : first s = (.ok a, s')) :
    (first >>= next) s = next a s' := by
  show Reading.bind first next s = _
  rw [Reading.bind, h]

theorem bind_of_error {halt : Halt} (h : first s = (.error halt, s')) :
    (first >>= next) s = (.error halt, s') := by
  show Reading.bind first next s = _
  rw [Reading.bind, h]

/-- The second reading does what the first one does, unless its limit stops that one. -/
def Within (lower higher : Reading α) : Prop :=
  ∀ s, (lower s).1 = .error .limit ∨ lower s = higher s

namespace Within

theorem refl (reading : Reading α) : Within reading reading := fun _ => Or.inr rfl

theorem bind {first first' : Reading α} {next next' : α → Reading β} (h : Within first first')
    (hnext : ∀ a, Within (next a) (next' a)) : Within (first >>= next) (first' >>= next') := by
  intro s
  generalize houtcome : first s = outcome
  obtain ⟨_ | a, s'⟩ := outcome
  · rw [bind_of_error houtcome]
    rcases h s with hlimit | heq
    · rw [houtcome] at hlimit
      cases hlimit
      exact Or.inl rfl
    · rw [bind_of_error (heq ▸ houtcome)]
      exact Or.inr rfl
  · rcases h s with hlimit | heq
    · rw [houtcome] at hlimit
      cases hlimit
    · rw [bind_of_ok houtcome, bind_of_ok (heq ▸ houtcome)]
      exact hnext a s'

theorem then_same {first first' : Reading α} (h : Within first first') (next : α → Reading β) :
    Within (first >>= next) (first' >>= next) := h.bind fun a => refl (next a)

theorem same_then (first : Reading α) {next next' : α → Reading β}
    (hnext : ∀ a, Within (next a) (next' a)) : Within (first >>= next) (first >>= next') :=
  (refl first).bind hnext

theorem recorded {reading reading' : Reading α} (h : Within reading reading') (p : Procedure) :
    Within (recorded p reading) (recorded p reading') := by
  intro s
  unfold Reading.recorded
  rcases h s with hlimit | heq
  · refine Or.inl ?_
    generalize reading s = outcome at hlimit
    obtain ⟨answer, s'⟩ := outcome
    obtain rfl : answer = .error .limit := hlimit
    rfl
  · rw [heq]
    exact Or.inr rfl

theorem ite {c : Bool} {yes yes' no no' : Reading α} (hyes : Within yes yes')
    (hno : Within no no') :
    Within (if c = true then yes else no) (if c = true then yes' else no') := by
  cases c with
  | true => exact hyes
  | false => exact hno

end Within

end Reading

open Reading

variable {tokens : List Token}

theorem within_loop {α β : Type} {rounds rounds' : Nat} {next? : Lexeme → Option β}
    {step step' : α → β → Reading α} (h : ∀ a b, Within (step a b) (step' a b))
    (hrounds : rounds ≤ rounds') (a : α) :
    Within (loop tokens next? step rounds a) (loop tokens next? step' rounds' a) := by
  induction rounds generalizing rounds' a with
  | zero => exact fun s => Or.inl rfl
  | succ rounds ih =>
    obtain ⟨more, rfl⟩ : ∃ more, rounds' = more + 1 := ⟨rounds' - 1, by omega⟩
    refine Within.same_then _ fun token => ?_
    cases next? token.lexeme with
    | none => exact Within.refl _
    | some b =>
      exact Within.same_then _ fun _ => (h a b).bind fun a' => ih (by omega) a'

theorem within_body {call call' : Procedure → Reading Expr} {rounds rounds' : Nat}
    (h : ∀ p, Within (call p) (call' p)) (hrounds : rounds ≤ rounds') (p : Procedure) :
    Within (body tokens call rounds p) (body tokens call' rounds' p) := by
  cases p with
  | expression =>
    exact (h .term).bind fun left =>
      within_loop (fun a op => (h .term).then_same _) hrounds left
  | term =>
    exact (h .unary).bind fun left =>
      within_loop (fun a op => (h .unary).then_same _) hrounds left
  | unary =>
    refine Within.same_then _ fun token => ?_
    cases Parser.sign? token.lexeme with
    | none => exact h .power
    | some sign => exact Within.same_then _ fun _ => (h .unary).then_same _
  | power =>
    exact (h .primary).bind fun base => Within.same_then _ fun next =>
      .ite (Within.same_then _ fun _ => (h .unary).then_same _) (.refl _)
  | primary =>
    refine Within.same_then _ fun token => ?_
    obtain ⟨lexeme, position⟩ := token
    cases lexeme with
    | number | finish => exact Within.refl _
    | identifier name =>
      exact Within.same_then _ fun _ => Within.same_then _ fun next =>
        .ite (h (.functionCall name position)) (.refl _)
    | symbol symbol =>
      dsimp only
      by_cases hopen : symbol = .openParen
      · rw [if_pos hopen, if_pos hopen]
        exact Within.same_then _ fun _ => (h .expression).then_same _
      · rw [if_neg hopen, if_neg hopen]
        exact Within.refl _
  | functionCall name position =>
    unfold body
    dsimp only
    cases Builtin.find? name with
    | none => exact Within.refl _
    | some f =>
      refine Within.same_then _ fun _ => Within.then_same ?_ _
      exact Within.same_then _ fun close => .ite (.refl _) ((h .expression).bind fun first =>
        within_loop (fun args _ => (h .expression).then_same _) hrounds [first])

theorem within_call {depth depth' : Nat} (hdepth : depth ≤ depth') (p : Procedure) :
    Within (call tokens depth p) (call tokens depth' p) := by
  induction depth generalizing depth' p with
  | zero => exact fun s => Or.inl rfl
  | succ depth ih =>
    obtain ⟨deeper, rfl⟩ : ∃ deeper, depth' = deeper + 1 := ⟨depth' - 1, by omega⟩
    have hle : depth ≤ deeper := by omega
    exact (within_body (fun q => ih hle q) hle p).recorded p

end VirtualChannels.Formula.Cursor
