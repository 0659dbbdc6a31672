import Mathlib.Algebra.Order.Ring.Int
import VirtualChannels.Proofs.Number.Order
import VirtualChannels.Recording.Basic

/-
  The row nearest to a time. Bisection finds the first row that is not before the time
  (`IsFirst.firstNotBefore_eq`), in any arithmetic whose comparisons follow an order, of which the
  doubles are one. Where the time is not after some row, rows behind that one are of no account:
  `nearestTime_append` says so of rows that are appended.
-/

namespace VirtualChannels

/-- For a test that holds below a place and fails from there on, bisection ends at the place. -/
theorem bisect_eq {holds : Nat → Bool} {low high k : Nat} (hlow : low ≤ k) (hhigh : k ≤ high)
    (hbelow : ∀ i < k, holds i = true) (habove : ∀ i, k ≤ i → i < high → holds i = false) :
    bisect holds low high = k := by
  fun_induction bisect holds low high with
  | case1 low high hlt middle hm ih =>
    have hmiddle : middle < k := by
      refine Nat.not_le.1 fun hle => ?_
      rw [habove middle hle (by omega)] at hm
      cases hm
    exact ih (by omega) hhigh habove
  | case2 low high hlt middle hm ih =>
    have hmiddle : k ≤ middle := Nat.not_lt.1 fun hlt => hm (hbelow middle hlt)
    exact ih hlow hmiddle fun i hk hi => habove i hk (by omega)
  | case3 low high hge => omega

/-- An arithmetic whose comparisons follow the order of ranks, among the values that are
numbers. Of two values with one rank either may be the lesser or the greater. -/
class OrderedScalar (α : Type) (β : outParam Type) [Scalar α] [LinearOrder β] where
  isNumber : α → Bool
  rank : α → β
  less_iff {x y : α} (hx : isNumber x = true) (hy : isNumber y = true) :
    Scalar.less x y = true ↔ rank x < rank y
  same_iff {x y : α} (hx : isNumber x = true) (hy : isNumber y = true) :
    Scalar.same x y = true ↔ rank x = rank y
  lesser_eq {x y : α} (hx : isNumber x = true) (hy : isNumber y = true) :
    (Scalar.lesser x y = x ∧ rank x ≤ rank y) ∨ (Scalar.lesser x y = y ∧ rank y ≤ rank x)
  greater_eq {x y : α} (hx : isNumber x = true) (hy : isNumber y = true) :
    (Scalar.greater x y = x ∧ rank y ≤ rank x) ∨ (Scalar.greater x y = y ∧ rank x ≤ rank y)

instance : OrderedScalar Float Int where
  isNumber := Number.isNumber
  rank := Number.rank
  less_iff hx hy := decide_eq_true_iff.trans (Number.lt_iff hx hy)
  same_iff := Number.beq_iff
  lesser_eq := Number.lesser_eq
  greater_eq := Number.greater_eq

section
variable {α β : Type} [Scalar α] [LinearOrder β] [OrderedScalar α β]

open OrderedScalar (isNumber rank)

/-- Times that are numbers and do not go back. -/
structure Ascending (times : Array α) : Prop where
  number : ∀ (row : Nat) (t : α), times[row]? = some t → isNumber t = true
  rank_le : ∀ (row row' : Nat) (t t' : α), row ≤ row' → times[row]? = some t →
    times[row']? = some t' → rank t ≤ rank t'

/-- The row is the first that is not before a time. -/
def IsFirst (times : Array α) (time : α) (row : Nat) : Prop :=
  (∃ t, times[row]? = some t ∧ rank time ≤ rank t) ∧
    ∀ row' < row, ∀ t, times[row']? = some t → rank t < rank time

variable {times later : Array α} {time target t : α} {row : Nat}

theorem Ascending.of_pairwise (hnumber : ∀ t ∈ times, isNumber t = true)
    (hsorted : times.toList.Pairwise fun t t' => rank t ≤ rank t') : Ascending times := by
  refine ⟨fun row t ht => hnumber t (Array.mem_of_getElem? ht), ?_⟩
  intro row row' t t' hle ht ht'
  rcases Nat.lt_or_eq_of_le hle with hlt | rfl
  · obtain ⟨hrow, rfl⟩ := Array.getElem?_eq_some_iff.1 ht
    obtain ⟨hrow', rfl⟩ := Array.getElem?_eq_some_iff.1 ht'
    exact List.pairwise_iff_getElem.1 hsorted row row' hrow hrow' hlt
  · rw [ht] at ht'
    cases ht'
    exact le_refl _

theorem exists_isFirst (h : times[row]? = some t) (hle : rank time ≤ rank t) :
    ∃ first ≤ row, IsFirst times time first := by
  induction row using Nat.strongRecOn generalizing t with
  | ind row ih =>
    by_cases hearlier : ∃ row' < row, ∃ t', times[row']? = some t' ∧ rank time ≤ rank t'
    · obtain ⟨row', hlt, t', ht', hle'⟩ := hearlier
      obtain ⟨first, hfirst, his⟩ := ih row' hlt ht' hle'
      exact ⟨first, Nat.le_trans hfirst (Nat.le_of_lt hlt), his⟩
    · refine ⟨row, Nat.le_refl _, ⟨t, h, hle⟩, fun row' hlt t' ht' => ?_⟩
      exact lt_of_not_ge fun hge => hearlier ⟨row', hlt, t', ht', hge⟩

theorem IsFirst.firstNotBefore_eq (hs : Ascending times) (ht : isNumber time = true)
    (h : IsFirst times time row) : firstNotBefore times time = row := by
  obtain ⟨⟨t, hrow, hle⟩, hbelow⟩ := h
  have hlt : row < times.size := (Array.getElem?_eq_some_iff.1 hrow).1
  refine bisect_eq (Nat.zero_le _) (Nat.le_of_lt hlt) (fun i hi => ?_) fun i hi hsize => ?_
  · have hget : times[i]? = some times[i] := Array.getElem?_eq_getElem (by omega)
    rw [hget, Option.any_some]
    exact (OrderedScalar.less_iff (hs.number i _ hget) ht).2 (hbelow i hi _ hget)
  · have hget : times[i]? = some times[i] := Array.getElem?_eq_getElem hsize
    rw [hget, Option.any_some]
    refine Bool.eq_false_iff.2 fun hless => ?_
    have hbefore := (OrderedScalar.less_iff (hs.number i _ hget) ht).1 hless
    exact absurd hbefore (not_lt_of_ge (le_trans hle (hs.rank_le row i _ _ hi hrow hget)))

theorem IsFirst.append (h : IsFirst times time row) : IsFirst (times ++ later) time row := by
  obtain ⟨⟨t, hrow, hle⟩, hbelow⟩ := h
  have hlt : row < times.size := (Array.getElem?_eq_some_iff.1 hrow).1
  refine ⟨⟨t, ?_, hle⟩, fun row' hlt' t' ht' => hbelow row' hlt' t' ?_⟩
  · rwa [Array.getElem?_append_left hlt]
  · rwa [Array.getElem?_append_left (Nat.lt_trans hlt' hlt)] at ht'

theorem Ascending.of_append (h : Ascending (times ++ later)) : Ascending times := by
  have hget {i : Nat} {s : α} (hi : times[i]? = some s) : (times ++ later)[i]? = some s := by
    rwa [Array.getElem?_append_left (Array.getElem?_eq_some_iff.1 hi).1]
  constructor
  · exact fun row t ht => h.number row t (hget ht)
  · exact fun row row' t t' hle ht ht' => h.rank_le row row' t t' hle (hget ht) (hget ht')

/-- Of the rows that are looked at, the first that is not before the time is the last. -/
theorem nearestWithin_le (times : Array α) (time : α) (h : times[row]? = some t)
    (hrow : firstNotBefore times time = row) : nearestWithin times time ≤ row := by
  unfold nearestWithin
  dsimp only
  rw [hrow, h]
  dsimp only
  split
  · exact Nat.le_refl _
  · split
    · exact Nat.sub_le _ _
    · exact Nat.le_refl _

/-- Rows behind the first that is not before a time do not matter. -/
theorem nearestWithin_append (hs : Ascending (times ++ later)) (ht : isNumber time = true)
    (h : IsFirst times time row) :
    nearestWithin (times ++ later) time = nearestWithin times time ∧
      nearestWithin times time ≤ row := by
  have hfirst := h.firstNotBefore_eq hs.of_append ht
  have hfirst' : firstNotBefore (times ++ later) time = row := h.append.firstNotBefore_eq hs ht
  obtain ⟨⟨t, hrow, -⟩, -⟩ := h
  have hlt : row < times.size := (Array.getElem?_eq_some_iff.1 hrow).1
  have hget : (times ++ later)[row]? = times[row]? := Array.getElem?_append_left hlt
  have hbefore : (times ++ later)[row - 1]? = times[row - 1]? :=
    Array.getElem?_append_left (by omega)
  refine ⟨?_, nearestWithin_le times time hrow hfirst⟩
  unfold nearestWithin isNearer
  dsimp only
  rw [hfirst, hfirst', hget, hbefore, hrow]

/-- A target that is not after the last time need not be brought before it. -/
theorem nearestTime_eq_nearestWithin {first last : α} (hs : Ascending times)
    (hfirst : times[0]? = some first) (hlast : times[times.size - 1]? = some last)
    (ht : isNumber (Scalar.greater target first) = true)
    (hle : rank (Scalar.greater target first) ≤ rank last) :
    nearestTime times target = nearestWithin times (Scalar.greater target first) := by
  have hnumber := hs.number _ _ hlast
  unfold nearestTime
  rw [hfirst, hlast]
  dsimp only
  generalize Scalar.greater target first = time at ht hle ⊢
  rcases OrderedScalar.lesser_eq ht hnumber with ⟨heq, -⟩ | ⟨heq, hge⟩
  · rw [heq]
  · -- Both have one rank, which is that of the first row not before them.
    have hrank : rank last = rank time := le_antisymm hge hle
    obtain ⟨row, -, h⟩ := exists_isFirst hlast hle
    have h' : IsFirst times last row := by
      unfold IsFirst at h ⊢
      rwa [hrank]
    have hrow := h.firstNotBefore_eq hs ht
    have hrow' := h'.firstNotBefore_eq hs hnumber
    obtain ⟨⟨t, hget, hge'⟩, -⟩ := h
    have hsize : row ≤ times.size - 1 :=
      Nat.le_sub_one_of_lt (Array.getElem?_eq_some_iff.1 hget).1
    have hsame : rank t = rank time :=
      le_antisymm (hrank ▸ hs.rank_le _ _ _ _ hsize hget hlast) hge'
    have ht' := hs.number _ _ hget
    rw [heq]
    unfold nearestWithin
    dsimp only
    rw [hrow, hrow', hget]
    dsimp only
    rw [(OrderedScalar.same_iff ht' ht).2 hsame,
      (OrderedScalar.same_iff ht' hnumber).2 (hsame.trans hrank.symm)]
    rfl

theorem greater_le {x y z : α} (hx : isNumber x = true) (hy : isNumber y = true)
    (hxz : rank x ≤ rank z) (hyz : rank y ≤ rank z) :
    isNumber (Scalar.greater x y) = true ∧ rank (Scalar.greater x y) ≤ rank z := by
  rcases OrderedScalar.greater_eq hx hy with ⟨heq, -⟩ | ⟨heq, -⟩
  · rw [heq]
    exact ⟨hx, hxz⟩
  · rw [heq]
    exact ⟨hy, hyz⟩

/-- To a target that is not after a row, rows that are appended are not nearer, and neither is
any row behind that one. -/
theorem nearestTime_append (hs : Ascending (times ++ later)) (ht : isNumber target = true)
    (hrow : times[row]? = some t) (hle : rank target ≤ rank t) :
    nearestTime (times ++ later) target = nearestTime times target ∧
      nearestTime times target ≤ row := by
  have hlt : row < times.size := (Array.getElem?_eq_some_iff.1 hrow).1
  have hs' := hs.of_append
  have hfirst : times[0]? = some times[0] := Array.getElem?_eq_getElem (by omega)
  have hlast : times[times.size - 1]? = some times[times.size - 1] :=
    Array.getElem?_eq_getElem (by omega)
  have hfirst' : (times ++ later)[0]? = some times[0] := by
    rwa [Array.getElem?_append_left (by omega)]
  have hsize : times.size - 1 ≤ (times ++ later).size - 1 := by
    rw [Array.size_append]
    omega
  obtain ⟨last, hlast'⟩ : ∃ last, (times ++ later)[(times ++ later).size - 1]? = some last :=
    ⟨_, Array.getElem?_eq_getElem (by rw [Array.size_append]; omega)⟩
  have hkept : (times ++ later)[times.size - 1]? = some times[times.size - 1] := by
    rwa [Array.getElem?_append_left (by omega)]
  obtain ⟨hnumber, hbound⟩ := greater_le ht (hs'.number _ _ hfirst) hle
    (hs'.rank_le 0 row _ _ (Nat.zero_le _) hfirst hrow)
  have hbelow := le_trans hbound (hs'.rank_le row (times.size - 1) _ _ (by omega) hrow hlast)
  have hbelow' := le_trans hbelow (hs.rank_le _ _ _ _ hsize hkept hlast')
  obtain ⟨k, hk, h⟩ := exists_isFirst hrow hbound
  obtain ⟨heq, hmost⟩ := nearestWithin_append hs hnumber h
  rw [nearestTime_eq_nearestWithin hs hfirst' hlast' hnumber hbelow',
    nearestTime_eq_nearestWithin hs' hfirst hlast hnumber hbelow]
  exact ⟨heq, Nat.le_trans hmost hk⟩

end

end VirtualChannels
