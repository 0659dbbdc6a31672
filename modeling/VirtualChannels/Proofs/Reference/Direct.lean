import Mathlib.Data.List.Chain
import VirtualChannels.Formula.Builtin
import VirtualChannels.Proofs.Formula.Parsing
import VirtualChannels.Proofs.Reference.Substitution

/-
  The words of a formula: each reference is one, and the text between the references is lexed.
  They are the words of its segments (`directWords_eq`), and where no reference touches a
  neighbour the text with identifiers is lexed as these words, each reference by its identifier
  (`lexes_replaced`).
-/

namespace VirtualChannels

open Formula

section
variable {α β : Type}

theorem joined_nil (a : Option (List α)) : joined a (some []) = a := by
  cases a with
  | none => rfl
  | some l => exact congrArg some (List.append_nil l)

theorem joined_assoc (a b c : Option (List α)) :
    joined (joined a b) c = joined a (joined b c) := by
  cases a with
  | none => rfl
  | some l =>
    cases b with
    | none => rfl
    | some m =>
      cases c with
      | none => rfl
      | some n => exact congrArg some (List.append_assoc l m n)

theorem nil_joined (a : Option (List α)) : joined (some []) a = a := by
  cases a <;> rfl

theorem map_joined (f : α → β) (a b : Option (List α)) :
    (joined a b).map (List.map f) = joined (a.map (List.map f)) (b.map (List.map f)) := by
  cases a with
  | none => rfl
  | some l =>
    cases b with
    | none => rfl
    | some m => exact congrArg some List.map_append

theorem joined_eq_some {a b : Option (List α)} {l : List α} (h : joined a b = some l) :
    ∃ x y, a = some x ∧ b = some y ∧ l = x ++ y := by
  obtain ⟨x, hx, hy⟩ := Option.bind_eq_some_iff.1 h
  obtain ⟨y, hy, e⟩ := Option.map_eq_some_iff.1 hy
  exact ⟨x, y, hx, hy, e.symm⟩

end

/-! ## Words -/

/-- The lexemes of a text as words of a sentence. -/
def lexemeWords? (t : Text) : Option (List (Word Reference)) :=
  (lexemes? t).map (List.map .lexeme)

/-- The words of a formula from a position on, behind which the given references are its
occurrences. -/
def directWords (formula : Text) (cursor : Nat) : List Occurrence → Option (List (Word Reference))
  | [] => lexemeWords? (formula.drop cursor)
  | o :: rest =>
    joined (lexemeWords? ((formula.take o.start).drop cursor))
      (joined (some [.operand o.reference]) (directWords formula o.stop rest))

namespace Segment

def words : Segment → Option (List (Word Reference))
  | plain t => lexemeWords? t
  | reference r => some [.operand r]

def allWords : List Segment → Option (List (Word Reference))
  | [] => some []
  | s :: ss => joined s.words (allWords ss)

/-- A word of segments is a word of one of them. -/
theorem exists_of_mem_allWords {ss : List Segment} {ws : List (Word Reference)}
    (h : allWords ss = some ws) {w : Word Reference} (hw : w ∈ ws) :
    ∃ s ∈ ss, ∃ vs, s.words = some vs ∧ w ∈ vs := by
  induction ss generalizing ws with
  | nil =>
    cases h
    cases hw
  | cons s ss ih =>
    obtain ⟨vs, us, hs, hss, rfl⟩ := joined_eq_some h
    rcases List.mem_append.1 hw with hw | hw
    · exact ⟨s, List.mem_cons_self, vs, hs, hw⟩
    · obtain ⟨s', hs', hw'⟩ := ih hss hw
      exact ⟨s', List.mem_cons_of_mem s hs', hw'⟩

/-- The text up to the first reference. -/
def lead : List Segment → Text
  | plain t :: ss => t ++ lead ss
  | _ => []

/-- The words of the segments behind a text, which is lexed with what stands before the first
reference. -/
def wordsBehind (q : Text) : List Segment → Option (List (Word Reference))
  | [] => lexemeWords? q
  | plain t :: ss => wordsBehind (q ++ t) ss
  | reference r :: ss =>
    joined (lexemeWords? q) (joined (some [.operand r]) (wordsBehind [] ss))

theorem directWords_ofSegments {formula : Text} {cursor : Nat} {q : Text} {ss : List Segment}
    (h : formula.drop cursor = q ++ ss.flatMap Segment.text) :
    directWords formula cursor (Occurrence.ofSegments (cursor + q.length) ss) =
      wordsBehind q ss := by
  induction ss generalizing cursor q with
  | nil =>
    rw [List.flatMap_nil, List.append_nil] at h
    rw [Occurrence.ofSegments, directWords, h]
    rfl
  | cons s ss ih =>
    rw [List.flatMap_cons] at h
    cases s with
    | plain t =>
      have hrest : formula.drop cursor = (q ++ t) ++ ss.flatMap Segment.text := by
        rw [h, List.append_assoc]
        rfl
      have h' := ih hrest
      rw [List.length_append, ← Nat.add_assoc] at h'
      exact h'
    | reference r =>
      have hq : (formula.take (cursor + q.length)).drop cursor = q := by
        rw [List.drop_take, h, Nat.add_sub_cancel_left, List.take_left]
      have hrest : formula.drop (cursor + q.length + (reference r).text.length) =
          [] ++ ss.flatMap Segment.text := by
        rw [Nat.add_assoc, ← List.drop_drop, h, ← List.append_assoc, ← List.length_append,
          List.nil_append]
        exact List.drop_left
      have h' := ih hrest
      rw [List.length_nil, Nat.add_zero] at h'
      rw [Occurrence.ofSegments, directWords, hq, h']
      rfl

theorem lead_le (ss : List Segment) : lead ss <+: ss.flatMap Segment.text := by
  induction ss with
  | nil => exact List.prefix_rfl
  | cons s ss ih =>
    cases s with
    | plain t => exact (List.prefix_append_right_inj t).2 ih
    | reference r => exact List.nil_prefix

theorem lexemeWords?_nil : lexemeWords? [] = some [] := by
  rw [lexemeWords?, (Lexes.nil []).lexemes?_eq]
  rfl

theorem lexemeWords?_append {q p : Text}
    (h : Lexes (q ++ p) [] (joined (lexemes? q) (lexemes? p))) :
    lexemeWords? (q ++ p) = joined (lexemeWords? q) (lexemeWords? p) := by
  rw [lexemeWords?, h.lexemes?_eq, map_joined]
  rfl

/-- A segment that is no reference is lexed apart from what stands before the next reference. -/
theorem Scanned.lexes_lead {o : ScanOptions} {p x : Text} (h : Scanned o (.plain p) x) {c : Text}
    (hc : c <+: lead (segments o x)) : Lexes p c (lexemes? p) := by
  have hx : c <+: x := by
    have hlead := lead_le (segments o x)
    rw [flatMap_segments] at hlead
    exact hc.trans hlead
  obtain ⟨a, rfl⟩ := hx
  refine h.lexes rfl (Text.follows_append c a) fun hp u hu => ?_
  refine h.head_of_isIdentifier rfl hp u ?_
  cases c with
  | nil => cases hu
  | cons v c => exact hu

/-- A text that is lexed apart from what stands before the next reference. -/
theorem wordsBehind_eq {o : ScanOptions} (t : Text) {q : Text}
    (h : ∀ c, c <+: lead (segments o t) → Lexes q c (lexemes? q)) :
    wordsBehind q (segments o t) = joined (lexemeWords? q) (allWords (segments o t)) := by
  revert q h
  refine segments_induction (o := o) (motive := fun _ ss => ∀ {q : Text},
    (∀ c, c <+: lead ss → Lexes q c (lexemes? q)) →
      wordsBehind q ss = joined (lexemeWords? q) (allWords ss)) ?_ ?_ t
  · intro q _
    exact (joined_nil _).symm
  · intro s x hs ih q h
    cases s with
    | plain p =>
      have hboth : ∀ c, c <+: lead (segments o x) →
          Lexes (q ++ p) c (joined (lexemes? q) (lexemes? p)) := fun c hc =>
        (h (p ++ c) ((List.prefix_append_right_inj p).2 hc)).append (hs.lexes_lead hc)
      have hq := hboth [] List.nil_prefix
      have h' := ih (q := q ++ p) (by rw [hq.lexemes?_eq]; exact hboth)
      rw [wordsBehind, h', lexemeWords?_append hq, joined_assoc]
      rfl
    | reference r =>
      have h' := ih (q := []) fun c _ => by
        rw [(Lexes.nil []).lexemes?_eq]
        exact .nil c
      rw [lexemeWords?_nil, nil_joined] at h'
      rw [wordsBehind, h']
      rfl

end Segment

/-- The words of a formula are those of its segments. -/
theorem directWords_eq (o : ScanOptions) (formula : Text) :
    directWords formula 0 (occurrences o formula) = Segment.allWords (segments o formula) := by
  have hwhole : formula.drop 0 = [] ++ (segments o formula).flatMap Segment.text := by
    rw [flatMap_segments]
    rfl
  have h := Segment.directWords_ofSegments hwhole
  have h' := Segment.wordsBehind_eq (o := o) formula (q := []) fun c _ => by
    rw [(Lexes.nil []).lexemes?_eq]
    exact .nil c
  rw [Segment.lexemeWords?_nil, nil_joined] at h'
  rw [← h', ← h]
  rfl

/-! ## The words with identifiers -/

namespace Segment

variable {identifiers : Assignment Text} {o : ScanOptions} {spelling : Reference → Text}

theorem map_spelled_lexemeWords? (t : Text) :
    (lexemeWords? t).map (List.map (Word.spelled spelling)) = lexemes? t := by
  rw [lexemeWords?, Option.map_map]
  cases lexemes? t with
  | none => rfl
  | some ls =>
    refine congrArg some ?_
    show (ls.map Word.lexeme).map (Word.spelled spelling) = ls
    rw [List.map_map]
    exact List.map_id ls

/-- Where no reference touches a neighbour, the text with identifiers is lexed as the words of
the formula, each reference by its identifier. -/
theorem lexes_replaced (t : Text) (hn : Named identifiers (segments o t))
    (hsp : ∀ r, .reference r ∈ segments o t →
      spelling r = Segment.replaced identifiers (.reference r))
    (hu : Untouched (segments o t)) :
    Lexes ((segments o t).flatMap (Segment.replaced identifiers)) []
      ((allWords (segments o t)).map (List.map (Word.spelled spelling))) := by
  revert hn hsp hu
  refine segments_induction (o := o) (motive := fun _ ss => Named identifiers ss →
    (∀ r, .reference r ∈ ss → spelling r = Segment.replaced identifiers (.reference r)) →
    Untouched ss → Lexes (ss.flatMap (Segment.replaced identifiers)) []
      ((allWords ss).map (List.map (Word.spelled spelling)))) (fun _ _ _ => .nil []) ?_ t
  intro s x hs ih hn hsp hu
  rw [Untouched, List.isChain_cons] at hu
  have hstop := head_of_not_touches hs hn hu.1
  have hrest := ih hn.tail (fun r hr => hsp r (List.mem_cons_of_mem s hr)) hu.2
  rw [List.flatMap_cons, allWords, map_joined]
  refine Lexes.append ?_ hrest
  rw [List.append_nil]
  cases s with
  | plain p =>
    rw [words, map_spelled_lexemeWords?]
    exact hs.lexes rfl (replaced_onset x hn.tail).follows fun hp => hstop (endsInName_plain.2 hp)
  | reference r =>
    have hspelled : (Segment.words (.reference r)).map (List.map (Word.spelled spelling)) =
        some [.identifier (Segment.replaced identifiers (.reference r))] := by
      rw [← hsp r List.mem_cons_self]
      rfl
    rw [hspelled]
    exact .of_written (.identifier (hn.replaced List.mem_cons_self).1 (hstop rfl))

end Segment

end VirtualChannels
