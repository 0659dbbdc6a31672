import VirtualChannels.Proofs.Formula.Tokens

/-
  The tokens of a text as they are written in it. A text that is tokenized consists of lexemes
  and blanks (`tokenizeFrom_eq_ok_iff`), so every token stands where its position says
  (`Tokenized.stands`). Where the tokenizer fails, the unit that it reports stands where it
  says, and no token begins with it (`of_tokenizeFrom_error`).
-/

namespace VirtualChannels.Formula

theorem Lexeme.written_of_first? {l : Lexeme} {u : CodeUnit} {rest : Text} {more : Nat}
    (h : first? u rest = some (l, more)) : Written l (u :: rest.take more) (rest.drop more) := by
  unfold first? at h
  split at h
  · rename_i s hs
    cases h
    rw [← Symbol.unit_of_ofUnit? hs]
    exact .symbol s rest
  · dsimp only at h
    split at h
    · rename_i hne
      cases h
      obtain ⟨more, hmore⟩ := Nat.exists_eq_succ_of_ne_zero hne
      have hle := Numeral.length_le (u :: rest)
      rw [hmore, List.length_cons] at hle
      rw [hmore, Nat.succ_sub_one, List.take_succ_cons]
      refine .number (List.cons_ne_nil _ _) ?_
      rw [List.cons_append, List.take_append_drop, hmore, List.length_cons, List.length_take,
        Nat.min_eq_left (Nat.le_of_succ_le_succ hle)]
    · split at h
      · rename_i hu
        cases h
        have htake : rest.take (rest.takeWhile CodeUnit.continuesIdentifier).length =
            rest.takeWhile CodeUnit.continuesIdentifier :=
          (List.prefix_iff_eq_take.1 (List.takeWhile_prefix _)).symm
        rw [htake, Text.drop_length_takeWhile]
        exact .identifier ⟨u, _, rfl, hu, fun v hv => List.mem_takeWhile_imp hv⟩
          fun v hv => Text.head_dropWhile hv
      · cases h

/-- The tokens of a text that begins at a position: the lexemes written in it, with blanks between
them, and the end. -/
inductive Tokenized : Nat → Text → List Token → Prop
  | nil (pos : Nat) : Tokenized pos [] [⟨.finish, pos⟩]
  | blank {pos : Nat} {u : CodeUnit} {x : Text} {ts : List Token} (hu : u.isBlank = true)
      (hx : Tokenized (pos + 1) x ts) : Tokenized pos (u :: x) ts
  | lexeme {pos : Nat} {l : Lexeme} {w x : Text} {ts : List Token} (hw : l.Written w x)
      (hx : Tokenized (pos + w.length) x ts) : Tokenized pos (w ++ x) (⟨l, pos⟩ :: ts)

variable {pos : Nat} {t : Text} {ts : List Token}

theorem tokenized_of_tokenizeFrom (h : tokenizeFrom pos t = .ok ts) : Tokenized pos t ts := by
  fun_induction tokenizeFrom pos t generalizing ts with
  | case1 pos =>
    cases h
    exact .nil pos
  | case2 pos u rest hu ih => exact .blank hu (ih h)
  | case3 => cases h
  | case4 => cases h
  | case5 pos u rest hu lexeme more hfirst tokens htokens ih =>
    cases h
    have hlength : pos + 1 + more = pos + (u :: rest.take more).length := by
      rw [List.length_cons, List.length_take, Nat.min_eq_left (Lexeme.first?_length hfirst)]
      omega
    have hrest := ih htokens
    rw [hlength] at hrest
    have htokenized := Tokenized.lexeme (Lexeme.written_of_first? hfirst) hrest
    rwa [List.cons_append, List.take_append_drop] at htokenized

theorem Tokenized.tokenizeFrom_eq (h : Tokenized pos t ts) : tokenizeFrom pos t = .ok ts := by
  induction h with
  | nil pos => rw [tokenizeFrom]
  | blank hu hx ih => rw [tokenizeFrom, if_pos hu, ih]
  | lexeme hw hx ih =>
    rw [hw.tokenizeFrom_append, ih]
    rfl

/-- The tokenizer returns the lexemes written in a text, and nothing else. -/
theorem tokenizeFrom_eq_ok_iff : tokenizeFrom pos t = .ok ts ↔ Tokenized pos t ts :=
  ⟨tokenized_of_tokenizeFrom, Tokenized.tokenizeFrom_eq⟩

/-- The token is written in the text at its position; the end stands where the text ends. -/
inductive Token.StandsIn (t : Text) : Token → Prop
  | finish : StandsIn t ⟨.finish, t.length⟩
  | lexeme {pos : Nat} {l : Lexeme} {w x : Text} (hw : l.Written w x) (ht : t.drop pos = w ++ x) :
      StandsIn t ⟨l, pos⟩

theorem Tokenized.stands (h : Tokenized pos t ts) {s : Text} (hs : s.drop pos = t)
    (hle : pos ≤ s.length) : ∀ token ∈ ts, token.StandsIn s := by
  induction h with
  | nil pos =>
    intro token hm
    rw [List.mem_singleton.1 hm, Nat.le_antisymm hle (List.drop_eq_nil_iff.1 hs)]
    exact .finish
  | @blank pos u x ts hu hx ih =>
    have hlt : pos < s.length := by
      refine Nat.lt_of_not_le fun hge => ?_
      rw [List.drop_eq_nil_of_le hge] at hs
      cases hs
    refine ih ?_ hlt
    rw [← List.drop_drop, hs, List.drop_one, List.tail_cons]
  | @lexeme pos l w x ts hw hx ih =>
    intro token hm
    rcases List.mem_cons.1 hm with rfl | hm
    · exact .lexeme hw hs
    · refine ih ?_ ?_ token hm
      · rw [← List.drop_drop, hs, List.drop_left]
      · have hlength := congrArg List.length hs
        rw [List.length_drop, List.length_append] at hlength
        omega

/-- Every token of a text stands where its position says. -/
theorem standsIn_of_mem_tokenize (h : tokenize t = .ok ts) : ∀ token ∈ ts, token.StandsIn t :=
  (tokenized_of_tokenizeFrom h).stands List.drop_zero (Nat.zero_le _)

/-- The unit that the tokenizer reports stands where it says, and neither a blank nor a token begins
with it. -/
theorem of_tokenizeFrom_error {e : UnexpectedUnit} (h : tokenizeFrom pos t = .error e) :
    ∃ n rest, e.position = pos + n ∧ t.drop n = e.unit :: rest ∧ e.unit.isBlank = false ∧
      Lexeme.first? e.unit rest = none := by
  fun_induction tokenizeFrom pos t with
  | case1 => cases h
  | case2 pos u rest hu ih =>
    obtain ⟨n, rest', hn, hdrop, he⟩ := ih h
    exact ⟨n + 1, rest', by omega, hdrop, he⟩
  | case3 pos u rest hu hfirst =>
    cases h
    exact ⟨0, rest, rfl, rfl, Bool.eq_false_iff.2 hu, hfirst⟩
  | case4 pos u rest hu lexeme more hfirst err herr ih =>
    cases h
    obtain ⟨n, rest', hn, hdrop, he⟩ := ih herr
    refine ⟨1 + more + n, rest', by omega, ?_, he⟩
    rwa [Nat.add_assoc, Nat.add_comm 1, List.drop_succ_cons, ← List.drop_drop]
  | case5 => cases h

end VirtualChannels.Formula
