import Mathlib.Data.List.TakeWhile
import VirtualChannels.Proofs.Formula.Tokens
import VirtualChannels.Proofs.Reference.Suffixes
import VirtualChannels.Reference.Scan

/-
  Cutting a formula into segments. `Scanned o s x` says that `s` is cut off in front of `x`, and
  what `s` may be. The segments of a text are cut off one after the other
  (`segments_induction`), and what is cut off depends on the text in no other way
  (`Scanned.first_eq`).
-/

namespace VirtualChannels

theorem Numeral.head_of_length_append {u : CodeUnit} {rest x : Text}
    (h : length (u :: rest ++ x) = (u :: rest).length) :
    u.isDigit = true ∨ u = Decimal.point := by
  have hne : length (u :: (rest ++ x)) ≠ 0 := by
    rw [← List.cons_append, h]
    exact Nat.succ_ne_zero _
  exact head_of_length_ne_zero hne

namespace Segment

/-- The segment is the first one of a text that goes on behind it. -/
inductive Scanned (o : ScanOptions) : Segment → Text → Prop
  | mark {x : Text} (hx : quotationMark ∉ x) : Scanned o (.plain [quotationMark]) x
  | emptyPair (x : Text) : Scanned o (.plain [quotationMark, quotationMark]) x
  | quoted {name : Text} (tail : Text) (hne : name ≠ []) (hname : quotationMark ∉ name) :
      Scanned o (.reference ⟨name, (Shift.suffix tail).shift,
          Text.quoted name ++ tail.take (Shift.suffix tail).length, none⟩)
        (tail.drop (Shift.suffix tail).length)
  | numeral {p x : Text} (hne : p ≠ []) (hp : Numeral.length (p ++ x) = p.length) :
      Scanned o (.plain p) x
  | point {x : Text} (hx : Numeral.length (Decimal.point :: x) = 0) :
      Scanned o (.plain [Decimal.point]) x
  | named {identifier tail : Text} (hi : identifier.IsIdentifier)
      (htail : ∀ u ∈ tail.head?, u.continuesIdentifier = false) :
      Scanned o (Segment.named o identifier tail) (tail.drop (Shift.suffix tail).length)
  | unit {u : CodeUnit} (x : Text) (hq : u ≠ quotationMark) (hd : u.isDigit = false)
      (hp : u ≠ Decimal.point) (hi : u.startsIdentifier = false) : Scanned o (.plain [u]) x

theorem text_reference (r : Reference) : (reference r).text = r.matched := rfl

theorem text_named (o : ScanOptions) (identifier tail : Text) :
    (Segment.named o identifier tail).text =
      identifier ++ tail.take (Shift.suffix tail).length := by
  unfold Segment.named
  dsimp only
  split
  · rfl
  · split
    · rfl
    · rfl

theorem quoted_scanned (o : ScanOptions) (rest : Text) :
    ∃ x, quotationMark :: rest = (Segment.quoted rest).text ++ x ∧
      Scanned o (Segment.quoted rest) x := by
  have hsplit := List.takeWhile_append_dropWhile (p := (· ≠ quotationMark)) (l := rest)
  have hname : quotationMark ∉ rest.takeWhile (· ≠ quotationMark) := fun h => by
    simpa using List.mem_takeWhile_imp h
  unfold Segment.quoted
  dsimp only
  rw [Text.drop_length_takeWhile]
  cases hd : rest.dropWhile (· ≠ quotationMark) with
  | nil =>
    refine ⟨rest, rfl, .mark ?_⟩
    rw [hd, List.append_nil] at hsplit
    rwa [hsplit] at hname
  | cons v tail =>
    have hv : v = quotationMark := by
      simpa using Text.head_dropWhile (t := rest) (p := (· ≠ quotationMark)) (by rw [hd]; rfl)
    dsimp only
    split
    · rename_i he
      rw [hd, he, hv] at hsplit
      refine ⟨tail, ?_, .emptyPair tail⟩
      rw [← hsplit]
      rfl
    · rename_i hne
      refine ⟨_, ?_, .quoted tail hne hname⟩
      rw [hd, hv] at hsplit
      rw [text_reference, List.append_assoc, List.take_append_drop, Text.quoted, List.cons_append,
        List.append_assoc]
      exact congrArg _ hsplit.symm

theorem scanned_first (o : ScanOptions) (u : CodeUnit) (rest : Text) :
    ∃ x, u :: rest = (first o u rest).text ++ x ∧ Scanned o (first o u rest) x := by
  unfold first
  split
  · rename_i hq
    rw [hq]
    exact quoted_scanned o rest
  · rename_i hq
    split
    · rename_i hn
      have hle := Numeral.length_le (u :: rest)
      rw [List.length_cons] at hle
      refine ⟨rest.drop (Numeral.length (u :: rest) - 1), ?_, ?_⟩
      · rw [text, List.cons_append, List.take_append_drop]
      · by_cases h : Numeral.length (u :: rest) = 0
        · have hu : u = Decimal.point := by
            rcases Bool.or_eq_true_iff.1 hn with hd | hp
            · exact absurd h (Numeral.length_ne_zero_of_isDigit hd rest)
            · exact eq_of_beq hp
          rw [h, Nat.zero_sub, List.take_zero, List.drop_zero, hu]
          exact .point (hu ▸ h)
        · refine .numeral (List.cons_ne_nil _ _) ?_
          rw [List.cons_append, List.take_append_drop, List.length_cons, List.length_take]
          omega
    · rename_i hn
      simp only [Bool.or_eq_true, beq_iff_eq, not_or] at hn
      split
      · rename_i hi
        dsimp only
        rw [Text.drop_length_takeWhile]
        refine ⟨_, ?_, .named ⟨u, _, rfl, hi, fun v hv => List.mem_takeWhile_imp hv⟩
          fun v hv => Text.head_dropWhile hv⟩
        rw [text_named, List.append_assoc, List.take_append_drop, List.cons_append,
          List.takeWhile_append_dropWhile]
      · rename_i hi
        exact ⟨rest, rfl, .unit rest hq (Bool.eq_false_iff.2 hn.1) hn.2 (Bool.eq_false_iff.2 hi)⟩

theorem quoted_of_not_mem {x : Text} (hx : quotationMark ∉ x) :
    Segment.quoted x = .plain [quotationMark] := by
  have hname : x.takeWhile (· ≠ quotationMark) = x := by
    have h := Text.takeWhile_append_stop (p := (· ≠ quotationMark)) (s := x) (t := [])
      (fun u hu => decide_eq_true fun e => hx (e ▸ hu)) (fun u hu => nomatch hu)
    rwa [List.append_nil] at h
  unfold Segment.quoted
  dsimp only
  rw [hname, List.drop_length]

theorem quoted_of_pair {name : Text} (hname : quotationMark ∉ name) (tail : Text) :
    Segment.quoted (name ++ quotationMark :: tail) =
      if name = [] then .plain [quotationMark, quotationMark]
      else .reference ⟨name, (Shift.suffix tail).shift,
        Text.quoted name ++ tail.take (Shift.suffix tail).length, none⟩ := by
  have hname : (name ++ quotationMark :: tail).takeWhile (· ≠ quotationMark) = name := by
    refine Text.takeWhile_append_stop (fun u hu => decide_eq_true fun e => hname (e ▸ hu)) ?_
    intro u hu
    cases hu
    decide
  unfold Segment.quoted
  dsimp only
  rw [hname, List.drop_left]

/-- A segment is cut off from any text that it may stand in front of. -/
theorem Scanned.first_eq {o : ScanOptions} {s : Segment} {x : Text} (h : Scanned o s x)
    {u : CodeUnit} {rest : Text} (e : s.text ++ x = u :: rest) : first o u rest = s := by
  cases h with
  | mark hx =>
    cases e
    rw [first, if_pos rfl]
    exact quoted_of_not_mem hx
  | emptyPair =>
    cases e
    rw [first, if_pos rfl]
    exact quoted_of_pair List.not_mem_nil x
  | @quoted name tail hne hname =>
    rw [text_reference, List.append_assoc, List.take_append_drop, Text.quoted, List.cons_append,
      List.append_assoc] at e
    cases e
    rw [first, if_pos (by decide)]
    exact (quoted_of_pair hname tail).trans (if_neg hne)
  | @numeral p x hne hp =>
    have e : p ++ x = u :: rest := e
    obtain ⟨v, more, rfl⟩ := List.exists_cons_of_ne_nil hne
    rw [List.cons_append, List.cons.injEq] at e
    obtain ⟨rfl, rfl⟩ := e
    have hu := Numeral.head_of_length_append hp
    have hq : v ≠ quotationMark := by
      rcases hu with hd | rfl
      · rintro rfl
        revert hd
        decide
      · decide
    rw [first, if_neg hq, if_pos (by simpa using hu), ← List.cons_append, hp, List.length_cons,
      Nat.add_sub_cancel, List.take_left]
  | point hx =>
    have e : Decimal.point :: x = u :: rest := e
    cases e
    rw [first, if_neg (by decide), if_pos (by decide), hx]
    rfl
  | @named identifier tail hi htail =>
    obtain ⟨v, more, rfl, hv, hmore⟩ := hi
    rw [text_named, List.append_assoc, List.take_append_drop, List.cons_append,
      List.cons.injEq] at e
    obtain ⟨rfl, rfl⟩ := e
    have hq : v ≠ quotationMark := by
      rintro rfl
      revert hv
      decide
    have hp : v ≠ Decimal.point := by
      rintro rfl
      revert hv
      decide
    rw [first, if_neg hq, if_neg (by simp [CodeUnit.isDigit_eq_false hv, hp]), if_pos hv]
    dsimp only
    rw [Text.takeWhile_append_stop hmore htail, List.drop_left]
  | unit x hq hd hp hi =>
    cases e
    rw [first, if_neg hq, if_neg (by simp [hd, hp]), if_neg (by rw [hi]; exact Bool.false_ne_true)]

theorem Scanned.text_ne_nil {o : ScanOptions} {s : Segment} {x : Text} (h : Scanned o s x) :
    s.text ≠ [] := by
  cases h with
  | mark | emptyPair | point | unit => exact List.cons_ne_nil _ _
  | quoted => exact List.cons_ne_nil _ _
  | numeral hne hp => exact hne
  | named hi htail =>
    obtain ⟨v, more, rfl, hv, hmore⟩ := hi
    rw [text_named]
    exact List.cons_ne_nil _ _

end Segment

/-- The segments of a text are the one that is cut off and those of what follows. -/
theorem segments_append {o : ScanOptions} {s : Segment} {x : Text} (h : Segment.Scanned o s x) :
    segments o (s.text ++ x) = s :: segments o x := by
  obtain ⟨u, more, e⟩ := List.exists_cons_of_ne_nil h.text_ne_nil
  have hfirst := h.first_eq (by rw [e, List.cons_append])
  rw [e, List.cons_append, segments, hfirst, e, List.length_cons, Nat.add_sub_cancel, List.drop_left]

/-- A text is empty, or its first segment is cut off. -/
theorem segments_cases (o : ScanOptions) (t : Text) :
    (t = [] ∧ segments o t = []) ∨
    ∃ s x, Segment.Scanned o s x ∧ t = s.text ++ x ∧ segments o t = s :: segments o x := by
  cases t with
  | nil => exact Or.inl ⟨rfl, by rw [segments]⟩
  | cons u rest =>
    obtain ⟨x, e, h⟩ := Segment.scanned_first o u rest
    refine Or.inr ⟨_, x, h, e, ?_⟩
    rw [e]
    exact segments_append h

/-- What holds of the empty text, and in front of whatever it holds of, holds of every text and
its segments. -/
@[elab_as_elim]
theorem segments_induction {o : ScanOptions} {motive : Text → List Segment → Prop}
    (nil : motive [] [])
    (cons : ∀ s x, Segment.Scanned o s x → motive x (segments o x) →
      motive (s.text ++ x) (s :: segments o x)) (t : Text) : motive t (segments o t) := by
  induction hn : t.length using Nat.strong_induction_on generalizing t with
  | _ n ih =>
    rcases segments_cases o t with ⟨rfl, e⟩ | ⟨s, x, h, e, hs⟩
    · rw [e]
      exact nil
    · rw [hs, e]
      have hlt : x.length < n := by
        have hpos := List.length_pos_iff.2 h.text_ne_nil
        rw [← hn, e, List.length_append]
        omega
      exact cons s x h (ih x.length hlt x rfl)

/-- The segments put together are the text. -/
theorem flatMap_segments (o : ScanOptions) (t : Text) :
    (segments o t).flatMap Segment.text = t := by
  refine segments_induction (o := o) (motive := fun t ss => ss.flatMap Segment.text = t) rfl ?_ t
  intro s x _ ih
  rw [List.flatMap_cons, ih]

end VirtualChannels
