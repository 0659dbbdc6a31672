import Mathlib.Data.List.Chain
import VirtualChannels.Proofs.Reference.Substitution

/-
  The identifiers put in for references, as tokens. Each is a token of the text exactly if none
  touches a neighbour (`inserted_mem_iff_untouched`).
-/

namespace VirtualChannels

open Formula

namespace Segment

variable {identifiers : Assignment Text} {o : ScanOptions}

/-- The identifiers put in, as tokens at the places where they stand. -/
def inserted (identifiers : Assignment Text) (position : Nat) : List Segment → List Token
  | [] => []
  | s :: rest =>
    let stop := position + (Segment.replaced identifiers s).length
    match s with
    | plain _ => inserted identifiers stop rest
    | reference _ =>
      ⟨.identifier (Segment.replaced identifiers s), position⟩ :: inserted identifiers stop rest

theorem mem_inserted_cons {s : Segment} {ss : List Segment} {position : Nat} {token : Token} :
    token ∈ inserted identifiers position (s :: ss) ↔
      (s.isReference = true ∧ token = ⟨.identifier (Segment.replaced identifiers s), position⟩) ∨
      token ∈ inserted identifiers (position + (Segment.replaced identifiers s).length) ss := by
  cases s with
  | plain p => exact ⟨Or.inr, fun h => h.resolve_left fun h => nomatch h.1⟩
  | reference r =>
    rw [inserted, List.mem_cons]
    exact or_congr_left ⟨fun h => ⟨rfl, h⟩, And.right⟩

theorem position_of_mem_inserted {ss : List Segment} {position : Nat} {token : Token}
    (h : token ∈ inserted identifiers position ss) : position ≤ token.position := by
  induction ss generalizing position with
  | nil => cases h
  | cons s ss ih =>
    rcases mem_inserted_cons.1 h with ⟨-, rfl⟩ | h
    · exact Nat.le_refl _
    · exact Nat.le_of_add_right_le (ih h)

/-- The tokens put in are the identifiers of the occurrences, in order. -/
theorem map_lexeme_inserted (position start : Nat) (ss : List Segment) :
    (inserted identifiers position ss).map Token.lexeme =
      (Occurrence.ofSegments start ss).map fun occurrence =>
        .identifier (Segment.replaced identifiers (.reference occurrence.reference)) := by
  induction ss generalizing position start with
  | nil => rfl
  | cons s ss ih =>
    cases s with
    | plain p => exact ih _ _
    | reference r => exact congrArg _ (ih _ _)

/-- An identifier put in stands in the text where its token says. -/
theorem inserted_stands {ss : List Segment} {position : Nat} {token : Token}
    (h : token ∈ inserted identifiers position ss) :
    ∃ identifier, token.lexeme = .identifier identifier ∧ identifier <+:
      (ss.flatMap (Segment.replaced identifiers)).drop (token.position - position) := by
  induction ss generalizing position with
  | nil => cases h
  | cons s ss ih =>
    rw [List.flatMap_cons]
    rcases mem_inserted_cons.1 h with ⟨-, rfl⟩ | h
    · rw [Nat.sub_self, List.drop_zero]
      exact ⟨_, rfl, List.prefix_append _ _⟩
    · obtain ⟨identifier, e, hstands⟩ := ih h
      have hle := position_of_mem_inserted h
      refine ⟨identifier, e, ?_⟩
      rw [List.drop_append, List.drop_eq_nil_of_le (by omega), List.nil_append]
      rwa [Nat.sub_add_eq] at hstands

/-- A segment that touches nothing behind it is lexed apart from it, and is a token of its own if
it is a reference. -/
theorem tokens_of_free {s : Segment} {x : Text} (h : Scanned o s x)
    (hn : Named identifiers (s :: segments o x))
    (hfree : ∀ s' ∈ (segments o x).head?, s.touches s' = false) {position : Nat}
    {ts : List Token}
    (ht : tokenizeFrom position (Segment.replaced identifiers s ++
      (segments o x).flatMap (Segment.replaced identifiers)) = .ok ts) :
    ∃ us ts', ts = us ++ ts' ∧
      (∀ token ∈ us, token.position < position + (Segment.replaced identifiers s).length) ∧
      tokenizeFrom (position + (Segment.replaced identifiers s).length)
        ((segments o x).flatMap (Segment.replaced identifiers)) = .ok ts' ∧
      (s.isReference = true →
        ⟨.identifier (Segment.replaced identifiers s), position⟩ ∈ us) := by
  have hstop := head_of_not_touches h hn hfree
  cases s with
  | plain p =>
    have hlexes := h.lexes rfl (replaced_onset x hn.tail).follows
      fun hp => hstop (endsInName_plain.2 hp)
    have ht : tokenizeFrom position (p ++
      (segments o x).flatMap (Segment.replaced identifiers)) = .ok ts := ht
    cases hl : lexemes? p with
    | none =>
      rw [hl] at hlexes
      obtain ⟨e, he⟩ := hlexes position
      rw [ht] at he
      cases he
    | some ls =>
      rw [hl] at hlexes
      obtain ⟨us, -, hus, he⟩ := hlexes position
      rw [ht] at he
      obtain ⟨ts', hts', e⟩ := map_eq_ok he.symm
      exact ⟨us, ts', e.symm, hus, hts', fun h => nomatch h⟩
  | reference r =>
    have hid := (hn.replaced List.mem_cons_self).1
    rw [tokenizeFrom_identifier_stop hid position (hstop rfl)] at ht
    obtain ⟨ts', hts', e⟩ := map_eq_ok ht
    refine ⟨[_], ts', e.symm, fun token hm => ?_, hts', fun _ => List.mem_singleton.2 rfl⟩
    rw [List.mem_singleton.1 hm]
    exact Nat.lt_add_of_pos_right (List.length_pos_iff.2 hid.ne_nil)

theorem endsInName_replaced {s : Segment} {ss : List Segment} (hn : Named identifiers (s :: ss))
    (h : s.endsInName = true) : (Segment.replaced identifiers s).IsIdentifier := by
  cases s with
  | plain p => exact endsInName_plain.1 h
  | reference r => exact (hn.replaced List.mem_cons_self).1

/-- Where two neighbours touch, one of them is a reference whose identifier is no token: the
token that begins with the first one ends within the second. -/
theorem exists_merged {s s' : Segment} {ss : List Segment} {x : Text} (h : Scanned o s' x)
    (hn : Named identifiers (s :: s' :: ss)) (htouch : s.touches s' = true) {position : Nat}
    {ts : List Token}
    (ht : tokenizeFrom position (Segment.replaced identifiers s ++
      (s' :: ss).flatMap (Segment.replaced identifiers)) = .ok ts) :
    ∃ token ∈ inserted identifiers position (s :: s' :: ss), token ∉ ts := by
  rw [touches, Bool.and_eq_true, Bool.and_eq_true, Bool.or_eq_true] at htouch
  obtain ⟨⟨href, hends⟩, hcont⟩ := htouch
  have hid := endsInName_replaced hn hends
  obtain ⟨v, rest, e, hv⟩ := head_replaced h hn.tail
  rw [tokenizeFrom_identifier hid, List.flatMap_cons, e, List.cons_append,
    List.takeWhile_cons_of_pos (hv.trans hcont)] at ht
  obtain ⟨ts', hts', rfl⟩ := map_eq_ok ht
  have hlater : ∀ token ∈ ts', position + (Segment.replaced identifiers s).length <
      token.position := by
    intro token hm
    have := position_of_mem hts' hm
    rw [List.length_cons] at this
    omega
  have hpos := List.length_pos_iff.2 hid.ne_nil
  by_cases hs : s.isReference = true
  · refine ⟨_, mem_inserted_cons.2 (Or.inl ⟨hs, rfl⟩), fun hm => ?_⟩
    rcases List.mem_cons.1 hm with e' | hm
    · have hlexeme := congrArg Token.lexeme e'
      simp at hlexeme
    · have := hlater _ hm
      dsimp only at this
      omega
  · refine ⟨_, mem_inserted_cons.2 (Or.inr (mem_inserted_cons.2
      (Or.inl ⟨href.resolve_left hs, rfl⟩))), fun hm => ?_⟩
    rcases List.mem_cons.1 hm with e' | hm
    · have hposition := congrArg Token.position e'
      dsimp only at hposition
      omega
    · have := hlater _ hm
      dsimp only at this
      omega

/-- Every identifier put in is a token exactly if none touches a neighbour. -/
theorem inserted_mem_iff_untouched (t : Text) (hn : Named identifiers (segments o t))
    {position : Nat} {ts : List Token}
    (ht : tokenizeFrom position ((segments o t).flatMap (Segment.replaced identifiers)) = .ok ts) :
    (∀ token ∈ inserted identifiers position (segments o t), token ∈ ts) ↔
      Untouched (segments o t) := by
  revert hn position ts
  refine segments_induction (o := o) (motive := fun _ ss => Named identifiers ss →
    ∀ {position : Nat} {ts : List Token},
      tokenizeFrom position (ss.flatMap (Segment.replaced identifiers)) = .ok ts →
      ((∀ token ∈ inserted identifiers position ss, token ∈ ts) ↔ Untouched ss)) ?_ ?_ t
  · intro _ position ts _
    exact iff_of_true (fun _ h => absurd h List.not_mem_nil) .nil
  · intro s x h ih hn position ts ht
    rw [List.flatMap_cons] at ht
    rw [Untouched, List.isChain_cons]
    by_cases hfree : ∀ s' ∈ (segments o x).head?, s.touches s' = false
    · obtain ⟨us, ts', rfl, hus, hts', hown⟩ := tokens_of_free h hn hfree ht
      rw [and_iff_right hfree]
      refine Iff.trans ?_ (ih hn.tail hts')
      constructor
      · intro hall token hm
        rcases List.mem_append.1 (hall token (mem_inserted_cons.2 (Or.inr hm))) with hu | hts
        · have := hus token hu
          have := position_of_mem_inserted hm
          omega
        · exact hts
      · intro hall token hm
        rcases mem_inserted_cons.1 hm with ⟨hs, rfl⟩ | hm
        · exact List.mem_append_left ts' (hown hs)
        · exact List.mem_append_right us (hall token hm)
    · refine iff_of_false (fun hall => hfree ?_) fun hu => hfree hu.1
      intro s' hs'
      rcases segments_cases o x with ⟨-, e⟩ | ⟨s'', x', h'', -, e⟩
      · rw [e] at hs'
        cases hs'
      · rw [e] at hs' hn ht hall
        cases hs'
        refine Bool.eq_false_iff.2 fun htouch => ?_
        obtain ⟨token, hm, hnot⟩ := exists_merged h'' hn htouch ht
        exact hnot (hall token hm)

end Segment

end VirtualChannels
