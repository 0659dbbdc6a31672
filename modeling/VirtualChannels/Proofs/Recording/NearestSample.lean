import Mathlib.Algebra.Order.Group.Abs
import Mathlib.Algebra.Order.Ring.Rat
import VirtualChannels.Proofs.Number.Distances
import VirtualChannels.Proofs.Recording.NearestRow

/-
  The sample nearest to a target. Brought between the first and the last time, a target is the time
  of some row or lies between neighbours (`on_or_between`). In the first case the search ends at the
  first such row, in the second at the neighbour that is not farther, of two equally far the earlier
  one. Two rows are enough to look at, since rounding a distance keeps the order: that is all that
  is asked of the arithmetic (`RoundedScalar`), and doubles and rational numbers fulfil it.
-/

namespace VirtualChannels

/-! ## Arithmetics that round -/

/-- An arithmetic whose distances are the exact ones, rounded by a function that keeps the order. -/
class RoundedScalar (α : Type) (β γ : outParam Type) [Scalar α] [LinearOrder β] [AddCommGroup γ]
    [LinearOrder γ] [IsOrderedAddMonoid γ] extends OrderedScalar α β where
  value : α → γ
  round : γ → β
  round_mono : Monotone round
  isNumber_of_isFinite {x : α} (hx : Scalar.isFinite x = true) : isNumber x = true
  atMost_iff {x y : α} (hx : isNumber x = true) (hy : isNumber y = true) :
    Scalar.atMost x y = true ↔ rank x ≤ rank y
  value_le_iff {x y : α} (hx : Scalar.isFinite x = true) (hy : Scalar.isFinite y = true) :
    value x ≤ value y ↔ rank x ≤ rank y
  isNumber_distance {x y : α} (hx : Scalar.isFinite x = true) (hy : Scalar.isFinite y = true) :
    isNumber (Scalar.distance x y) = true
  rank_distance {x y : α} (hx : Scalar.isFinite x = true) (hy : Scalar.isFinite y = true) :
    rank (Scalar.distance x y) = round |value x - value y|

/-- Doubles are rounded to the nearest. -/
instance : RoundedScalar Float Int Int where
  value := Number.signedUnits
  round := Number.nearestRank
  round_mono _ _ := Number.nearestRank_mono
  isNumber_of_isFinite := Number.isNumber_of_isFinite
  atMost_iff hx hy := decide_eq_true_iff.trans (Number.le_iff hx hy)
  value_le_iff := Number.signedUnits_le_iff
  isNumber_distance := Number.isNumber_distance
  rank_distance := Number.rank_distance

instance : Scalar ℚ where
  zero := 0
  add x y := x + y
  sub x y := x - y
  mul x y := x * y
  divideBy x n := x / n
  less x y := x < y
  atMost x y := x ≤ y
  same x y := x = y
  lesser := min
  greater := max
  distance x y := |x - y|
  isFinite _ := true

/-- Rational numbers are not rounded at all. -/
instance : RoundedScalar ℚ ℚ ℚ where
  isNumber _ := true
  rank := id
  less_iff _ _ := decide_eq_true_iff
  same_iff _ _ := decide_eq_true_iff
  lesser_eq {x y} _ _ := by
    rcases le_total x y with h | h
    · exact Or.inl ⟨min_eq_left h, h⟩
    · exact Or.inr ⟨min_eq_right h, h⟩
  greater_eq {x y} _ _ := by
    rcases le_total y x with h | h
    · exact Or.inl ⟨max_eq_left h, h⟩
    · exact Or.inr ⟨max_eq_right h, h⟩
  value := id
  round := id
  round_mono := monotone_id
  isNumber_of_isFinite _ := rfl
  atMost_iff _ _ := decide_eq_true_iff
  value_le_iff _ _ := Iff.rfl
  isNumber_distance _ _ := rfl
  rank_distance _ _ := rfl

section
variable {α β γ : Type} [Scalar α] [LinearOrder β] [AddCommGroup γ] [LinearOrder γ]
  [IsOrderedAddMonoid γ] [RoundedScalar α β γ]

open OrderedScalar (isNumber rank)
open RoundedScalar (round value isNumber_of_isFinite isNumber_distance rank_distance)

/-! ## Distances -/

/-- Of two values on one side of a third the farther one is not measured as nearer. -/
theorem rank_distance_le {x y z : α} (hx : Scalar.isFinite x = true)
    (hy : Scalar.isFinite y = true) (hz : Scalar.isFinite z = true)
    (h : (rank x ≤ rank y ∧ rank y ≤ rank z) ∨ (rank z ≤ rank y ∧ rank y ≤ rank x)) :
    rank (Scalar.distance y z) ≤ rank (Scalar.distance x z) := by
  rw [rank_distance hy hz, rank_distance hx hz]
  apply RoundedScalar.round_mono
  rw [← RoundedScalar.value_le_iff hx hy, ← RoundedScalar.value_le_iff hy hz,
    ← RoundedScalar.value_le_iff hz hy, ← RoundedScalar.value_le_iff hy hx] at h
  rcases h with ⟨hxy, hyz⟩ | ⟨hzy, hyx⟩
  · rw [abs_sub_comm, abs_of_nonneg (sub_nonneg.2 hyz), abs_sub_comm,
      abs_of_nonneg (sub_nonneg.2 (hxy.trans hyz))]
    exact sub_le_sub_left hxy _
  · rw [abs_of_nonneg (sub_nonneg.2 hzy), abs_of_nonneg (sub_nonneg.2 (hzy.trans hyx))]
    exact sub_le_sub_right hyx _

theorem less_distance_eq_false {x y z : α} (hx : Scalar.isFinite x = true)
    (hy : Scalar.isFinite y = true) (hz : Scalar.isFinite z = true)
    (h : rank (Scalar.distance y z) ≤ rank (Scalar.distance x z)) :
    Scalar.less (Scalar.distance x z) (Scalar.distance y z) = false := by
  refine Bool.eq_false_iff.2 fun hless => not_lt_of_ge h ?_
  exact (OrderedScalar.less_iff (isNumber_distance hx hz) (isNumber_distance hy hz)).1 hless

theorem rank_distance_comm {x y : α} (hx : Scalar.isFinite x = true)
    (hy : Scalar.isFinite y = true) :
    rank (Scalar.distance x y) = rank (Scalar.distance y x) := by
  rw [rank_distance hx hy, rank_distance hy hx, abs_sub_comm]

/-! ## Times -/

/-- Times that are finite and do not go back. -/
structure SampleTimes (times : Array α) : Prop where
  finite : ∀ t ∈ times, Scalar.isFinite t = true
  sorted : times.toList.Pairwise fun t s => Scalar.atMost t s = true

variable {times : Array α} {time target first last : α} {row : Nat}

theorem SampleTimes.isFinite (h : SampleTimes times) {t : α} (ht : times[row]? = some t) :
    Scalar.isFinite t = true :=
  h.finite t (Array.mem_of_getElem? ht)

theorem SampleTimes.ascending (h : SampleTimes times) : Ascending times := by
  have hnumber {t : α} (ht : t ∈ times.toList) : isNumber t = true :=
    isNumber_of_isFinite (h.finite t (Array.mem_toList_iff.1 ht))
  refine .of_pairwise (fun t ht => isNumber_of_isFinite (h.finite t ht)) ?_
  exact h.sorted.imp_of_mem fun ht ht' hle =>
    (RoundedScalar.atMost_iff (hnumber ht) (hnumber ht')).1 hle

/-- The target brought between the first and the last time. -/
def within (first last target : α) : α := Scalar.lesser (Scalar.greater target first) last

/-- What is brought between two times is still a number, in its place between them. -/
theorem rank_within (ht : isNumber target = true) (hfirst : isNumber first = true)
    (hlast : isNumber last = true) :
    (within first last target = target ∨ within first last target = first ∨
        within first last target = last) ∧
      rank (within first last target) = min (max (rank target) (rank first)) (rank last) := by
  unfold within
  rcases OrderedScalar.greater_eq ht hfirst with ⟨hg, hge⟩ | ⟨hg, hge⟩
  · rw [hg, max_eq_left hge]
    rcases OrderedScalar.lesser_eq ht hlast with ⟨hl, hle⟩ | ⟨hl, hle⟩
    · rw [hl, min_eq_left hle]
      exact ⟨Or.inl rfl, rfl⟩
    · rw [hl, min_eq_right hle]
      exact ⟨Or.inr (Or.inr rfl), rfl⟩
  · rw [hg, max_eq_right hge]
    rcases OrderedScalar.lesser_eq hfirst hlast with ⟨hl, hle⟩ | ⟨hl, hle⟩
    · rw [hl, min_eq_left hle]
      exact ⟨Or.inr (Or.inl rfl), rfl⟩
    · rw [hl, min_eq_right hle]
      exact ⟨Or.inr (Or.inr rfl), rfl⟩

theorem of_within {p : α → Prop} (ht : isNumber target = true) (hfirst : isNumber first = true)
    (hlast : isNumber last = true) (h : p target) (h₁ : p first) (h₂ : p last) :
    p (within first last target) := by
  rcases (rank_within ht hfirst hlast).1 with heq | heq | heq
  · rw [heq]
    exact h
  · rw [heq]
    exact h₁
  · rw [heq]
    exact h₂

theorem nearestTime_eq_within (hfirst : times[0]? = some first)
    (hlast : times[times.size - 1]? = some last) (target : α) :
    nearestTime times target = nearestWithin times (within first last target) := by
  unfold nearestTime
  rw [hfirst, hlast]
  rfl

/-! ## The two rows that are looked at -/

theorem nearestWithin_on {t : α} (hs : Ascending times) (htime : isNumber time = true)
    (h : IsFirst times time row) (hrow : times[row]? = some t) (hsame : rank t = rank time) :
    nearestWithin times time = row := by
  unfold nearestWithin
  dsimp only
  rw [h.firstNotBefore_eq hs htime, hrow]
  dsimp only
  rw [(OrderedScalar.same_iff (hs.number _ _ hrow) htime).2 hsame]
  rfl

/-- A target that is brought to the time of a row is found at the first row with that time. -/
theorem nearestTime_on {t : α} (hs : Ascending times) (hfirst : times[0]? = some first)
    (hlast : times[times.size - 1]? = some last) (ht : isNumber target = true)
    (hrow : times[row]? = some t)
    (hrank : rank t = min (max (rank target) (rank first)) (rank last))
    (hbelow : ∀ row' < row, ∀ t', times[row']? = some t' → rank t' < rank t) :
    nearestTime times target = row := by
  have hf := hs.number _ _ hfirst
  have hl := hs.number _ _ hlast
  have hsame : rank t = rank (within first last target) :=
    hrank.trans (rank_within ht hf hl).2.symm
  rw [nearestTime_eq_within hfirst hlast]
  refine nearestWithin_on hs (of_within (p := (isNumber · = true)) ht hf hl ht hf hl) ?_ hrow hsame
  refine ⟨⟨t, hrow, le_of_eq hsame.symm⟩, fun row' hlt t' ht' => ?_⟩
  rw [← hsame]
  exact hbelow row' hlt t' ht'

/-- The times of two rows that follow each other, with a time between them. -/
structure Neighbours (times : Array α) (time : α) (row : Nat) (s t : α) : Prop where
  before : times[row]? = some s
  after : times[row + 1]? = some t
  lt : rank s < rank time
  gt : rank time < rank t

theorem Neighbours.isFirst {s t : α} (hs : Ascending times)
    (h : Neighbours times time row s t) : IsFirst times time (row + 1) := by
  refine ⟨⟨t, h.after, le_of_lt h.gt⟩, fun row' hlt s' hs' => ?_⟩
  exact lt_of_le_of_lt (hs.rank_le row' row s' s (Nat.le_of_lt_succ hlt) hs' h.before) h.lt

/-- Every row is on one side of the time or on the other. -/
theorem Neighbours.sides {s t u : α} {i : Nat} (hs : Ascending times)
    (h : Neighbours times time row s t) (hu : times[i]? = some u) :
    (i ≤ row ∧ rank u ≤ rank s) ∨ (row < i ∧ rank t ≤ rank u) := by
  rcases Nat.lt_or_ge row i with hlt | hle
  · exact Or.inr ⟨hlt, hs.rank_le _ _ _ _ hlt h.after hu⟩
  · exact Or.inl ⟨hle, hs.rank_le _ _ _ _ hle hu h.before⟩

theorem nearestWithin_between {s t : α} (hs : SampleTimes times)
    (htime : Scalar.isFinite time = true) (h : Neighbours times time row s t) :
    nearestWithin times time =
      if rank (Scalar.distance s time) ≤ rank (Scalar.distance t time) then row else row + 1 := by
  have hnumber := isNumber_of_isFinite htime
  have hdiffer : Scalar.same t time = false := by
    refine Bool.eq_false_iff.2 fun hsame => ?_
    have heq := (OrderedScalar.same_iff (isNumber_of_isFinite (hs.isFinite h.after)) hnumber).1 hsame
    exact absurd h.gt (heq ▸ lt_irrefl _)
  have hnearer : isNearer times time row (row + 1) = true ↔
      rank (Scalar.distance s time) ≤ rank (Scalar.distance t time) := by
    unfold isNearer
    rw [h.before, h.after]
    exact RoundedScalar.atMost_iff (isNumber_distance (hs.isFinite h.before) htime)
      (isNumber_distance (hs.isFinite h.after) htime)
  unfold nearestWithin
  dsimp only
  rw [(h.isFirst hs.ascending).firstNotBefore_eq hs.ascending hnumber, h.after]
  dsimp only
  rw [hdiffer, Nat.add_sub_cancel]
  simp only [hnearer]
  rfl

/-- A time that lies between the first and the last is that of a row, or lies between the times of
two rows that follow each other. -/
theorem on_or_between (hfirst : times[0]? = some first) (hlast : times[row]? = some last)
    (hge : rank first ≤ rank time) (hle : rank time ≤ rank last) :
    (∃ row t, IsFirst times time row ∧ times[row]? = some t ∧ rank t = rank time) ∨
      ∃ row s t, Neighbours times time row s t := by
  obtain ⟨k, -, h⟩ := exists_isFirst hlast hle
  have hk := h
  obtain ⟨⟨t, ht, hnot⟩, hbelow⟩ := h
  rcases eq_or_lt_of_le hnot with heq | hlt
  · exact Or.inl ⟨k, t, hk, ht, heq.symm⟩
  · cases k with
    | zero =>
      rw [hfirst] at ht
      cases ht
      exact absurd hlt (not_lt_of_ge hge)
    | succ k =>
      have hsize : k < times.size :=
        Nat.lt_of_succ_lt (Array.getElem?_eq_some_iff.1 ht).1
      have hget : times[k]? = some times[k] := Array.getElem?_eq_getElem hsize
      exact Or.inr ⟨k, times[k], t, hget, ht, hbelow k (Nat.lt_succ_self k) _ hget, hlt⟩

/-! ## Nearest samples -/

/-- The first row whose time passes a test. -/
def FirstRow (times : Array α) (test : α → Bool) (row : Nat) : Prop :=
  times[row]?.any test = true ∧ ∀ row' < row, times[row']?.any test = false

/-- The last row whose time passes a test. -/
def LastRow (times : Array α) (test : α → Bool) (row : Nat) : Prop :=
  times[row]?.any test = true ∧ ∀ row' > row, times[row']?.any test = false

/-- The row nearest to a time, by the distances that the arithmetic computes. -/
structure IsNearest (times : Array α) (time : α) (row : Nat) : Prop where
  /-- No sample has a smaller distance. -/
  least : ∃ t, times[row]? = some t ∧ ∀ s ∈ times,
    Scalar.less (Scalar.distance s time) (Scalar.distance t time) = false
  /-- Of the rows that hold the time it is the first. -/
  exact : (∃ s ∈ times, Scalar.same s time = true) → FirstRow times (Scalar.same · time) row
  /-- Else it is one of the two rows around the time, and the earlier one if these are equally
  far. -/
  around : (∀ s ∈ times, Scalar.same s time = false) → ∃ before after,
    LastRow times (Scalar.less · time) before ∧ FirstRow times (Scalar.less time ·) after ∧
    (row = before ∨ row = after) ∧
    ∀ s t, times[before]? = some s → times[after]? = some t →
      Scalar.same (Scalar.distance s time) (Scalar.distance t time) = true → row = before

theorem IsNearest.of_on {t : α} (hs : SampleTimes times) (htime : Scalar.isFinite time = true)
    (h : IsFirst times time row) (hrow : times[row]? = some t) (hsame : rank t = rank time) :
    IsNearest times time row := by
  have hnumber := isNumber_of_isFinite htime
  have ht := hs.isFinite hrow
  have hon := (OrderedScalar.same_iff (isNumber_of_isFinite ht) hnumber).2 hsame
  constructor
  case least =>
    refine ⟨t, hrow, fun s hmem => less_distance_eq_false (hs.finite s hmem) ht htime ?_⟩
    refine rank_distance_le (hs.finite s hmem) ht htime ?_
    rcases le_total (rank s) (rank t) with hle | hle
    · exact Or.inl ⟨hle, le_of_eq hsame⟩
    · exact Or.inr ⟨le_of_eq hsame.symm, hle⟩
  case exact =>
    refine fun _ => ⟨(Option.any_eq_true _ _).2 ⟨t, hrow, hon⟩, fun row' hlt => ?_⟩
    refine (Option.any_eq_false _ _).2 fun s hs' => Bool.eq_false_iff.2 fun hsame' => ?_
    have heq := (OrderedScalar.same_iff
      (isNumber_of_isFinite (hs.isFinite hs')) hnumber).1 hsame'
    exact absurd (h.2 row' hlt s hs') (heq ▸ lt_irrefl _)
  case around =>
    intro hnone
    rw [hnone t (Array.mem_of_getElem? hrow)] at hon
    cases hon

theorem IsNearest.of_between {s t : α} (hs : SampleTimes times)
    (htime : Scalar.isFinite time = true) (h : Neighbours times time row s t) :
    IsNearest times time
      (if rank (Scalar.distance s time) ≤ rank (Scalar.distance t time) then row else row + 1) := by
  have hnumber := isNumber_of_isFinite htime
  have hs' := hs.isFinite h.before
  have ht' := hs.isFinite h.after
  have hfar (u : α) (hu : u ∈ times) :
      rank (Scalar.distance s time) ≤ rank (Scalar.distance u time) ∨
        rank (Scalar.distance t time) ≤ rank (Scalar.distance u time) := by
    obtain ⟨i, hi⟩ := Array.mem_iff_getElem?.1 hu
    rcases h.sides hs.ascending hi with ⟨-, hle⟩ | ⟨-, hle⟩
    · exact Or.inl (rank_distance_le (hs.finite u hu) hs' htime (Or.inl ⟨hle, le_of_lt h.lt⟩))
    · exact Or.inr (rank_distance_le (hs.finite u hu) ht' htime (Or.inr ⟨le_of_lt h.gt, hle⟩))
  constructor
  case least =>
    split
    · rename_i hnearer
      refine ⟨s, h.before, fun u hu => less_distance_eq_false (hs.finite u hu) hs' htime ?_⟩
      exact (hfar u hu).elim id hnearer.trans
    · rename_i hfarther
      have hnearer := le_of_lt (not_le.1 hfarther)
      refine ⟨t, h.after, fun u hu => less_distance_eq_false (hs.finite u hu) ht' htime ?_⟩
      exact (hfar u hu).elim hnearer.trans id
  case exact =>
    rintro ⟨u, hu, hsame⟩
    have heq := (OrderedScalar.same_iff (isNumber_of_isFinite (hs.finite u hu)) hnumber).1 hsame
    obtain ⟨i, hi⟩ := Array.mem_iff_getElem?.1 hu
    rcases h.sides hs.ascending hi with ⟨-, hle⟩ | ⟨-, hle⟩
    · exact absurd (lt_of_le_of_lt hle h.lt) (heq ▸ lt_irrefl _)
    · exact absurd (lt_of_lt_of_le h.gt hle) (heq ▸ lt_irrefl _)
  case around =>
    intro _
    have hless {u v : α} (hu : isNumber u = true) (hv : isNumber v = true)
        (hle : rank v ≤ rank u) : Scalar.less u v = false :=
      Bool.eq_false_iff.2 fun hlt =>
        not_lt_of_ge hle ((OrderedScalar.less_iff hu hv).1 hlt)
    refine ⟨row, row + 1, ⟨?_, fun i hi => ?_⟩, ⟨?_, fun i hi => ?_⟩, ?_, ?_⟩
    · exact (Option.any_eq_true _ _).2
        ⟨s, h.before, (OrderedScalar.less_iff (isNumber_of_isFinite hs') hnumber).2 h.lt⟩
    · refine (Option.any_eq_false _ _).2 fun u hu => ?_
      rcases h.sides hs.ascending hu with ⟨hle, -⟩ | ⟨-, hle⟩
      · exact absurd hi (Nat.not_lt.2 hle)
      · exact hless (hs.ascending.number i u hu) hnumber (le_trans (le_of_lt h.gt) hle)
    · exact (Option.any_eq_true _ _).2
        ⟨t, h.after, (OrderedScalar.less_iff hnumber (isNumber_of_isFinite ht')).2 h.gt⟩
    · refine (Option.any_eq_false _ _).2 fun u hu => ?_
      rcases h.sides hs.ascending hu with ⟨-, hle⟩ | ⟨hlt, -⟩
      · exact hless hnumber (hs.ascending.number i u hu) (le_trans hle (le_of_lt h.lt))
      · exact absurd hi (Nat.not_lt.2 hlt)
    · split
      · exact Or.inl rfl
      · exact Or.inr rfl
    · intro s' t' hbefore hafter hsame
      rw [h.before] at hbefore
      rw [h.after] at hafter
      cases hbefore
      cases hafter
      have heq := (OrderedScalar.same_iff (isNumber_distance hs' htime)
        (isNumber_distance ht' htime)).1 hsame
      exact if_pos (le_of_eq heq)

/-! ## A later target -/

theorem IsFirst.mono {time' : α} {row' : Nat} (h : IsFirst times time row)
    (h' : IsFirst times time' row') (hle : rank time ≤ rank time') : row ≤ row' := by
  obtain ⟨⟨t, ht, hnot⟩, -⟩ := h'
  refine Nat.not_lt.1 fun hlt => ?_
  exact absurd (h.2 row' hlt t ht) (not_lt_of_ge (le_trans hle hnot))

/-- Between the same two rows a later time is farther from the earlier row, and nearer to the
later one. -/
theorem Neighbours.nearer_mono {s t time' : α} (hs : SampleTimes times)
    (htime : Scalar.isFinite time = true) (htime' : Scalar.isFinite time' = true)
    (h : Neighbours times time row s t) (h' : Neighbours times time' row s t)
    (hle : rank time ≤ rank time')
    (hnearer : rank (Scalar.distance s time') ≤ rank (Scalar.distance t time')) :
    rank (Scalar.distance s time) ≤ rank (Scalar.distance t time) := by
  have hs' := hs.isFinite h.before
  have ht' := hs.isFinite h.after
  calc rank (Scalar.distance s time)
      = rank (Scalar.distance time s) := rank_distance_comm hs' htime
    _ ≤ rank (Scalar.distance time' s) :=
      rank_distance_le htime' htime hs' (Or.inr ⟨le_of_lt h.lt, hle⟩)
    _ = rank (Scalar.distance s time') := rank_distance_comm htime' hs'
    _ ≤ rank (Scalar.distance t time') := hnearer
    _ = rank (Scalar.distance time' t) := rank_distance_comm ht' htime'
    _ ≤ rank (Scalar.distance time t) :=
      rank_distance_le htime htime' ht' (Or.inl ⟨hle, le_of_lt h'.gt⟩)
    _ = rank (Scalar.distance t time) := rank_distance_comm htime ht'

theorem nearestWithin_mono {time' : α} (hs : SampleTimes times)
    (htime : Scalar.isFinite time = true) (htime' : Scalar.isFinite time' = true)
    (hfirst : times[0]? = some first) (hlast : times[row]? = some last)
    (hge : rank first ≤ rank time) (hle : rank time ≤ rank time') (hle' : rank time' ≤ rank last) :
    nearestWithin times time ≤ nearestWithin times time' := by
  have hnumber := isNumber_of_isFinite htime
  have hnumber' := isNumber_of_isFinite htime'
  rcases on_or_between hfirst hlast hge (le_trans hle hle') with
    ⟨k, t, hk, ht, hsame⟩ | ⟨k, s, t, hk⟩
  · rw [nearestWithin_on hs.ascending hnumber hk ht hsame]
    rcases on_or_between hfirst hlast (le_trans hge hle) hle' with
      ⟨k', t', hk', ht', hsame'⟩ | ⟨k', s', t', hk'⟩
    · rw [nearestWithin_on hs.ascending hnumber' hk' ht' hsame']
      exact hk.mono hk' hle
    · have hmost := hk.mono (hk'.isFirst hs.ascending) hle
      have hne : k ≠ k' + 1 := by
        rintro rfl
        rw [hk'.after] at ht
        cases ht
        exact absurd (lt_of_le_of_lt hle hk'.gt) (hsame ▸ lt_irrefl _)
      rw [nearestWithin_between hs htime' hk']
      split <;> omega
  · rw [nearestWithin_between hs htime hk]
    rcases on_or_between hfirst hlast (le_trans hge hle) hle' with
      ⟨k', t', hk', ht', hsame'⟩ | ⟨k', s', t', hk'⟩
    · have hmost := (hk.isFirst hs.ascending).mono hk' hle
      rw [nearestWithin_on hs.ascending hnumber' hk' ht' hsame']
      split <;> omega
    · have hmost := (hk.isFirst hs.ascending).mono (hk'.isFirst hs.ascending) hle
      rw [nearestWithin_between hs htime' hk']
      by_cases hgap : k = k'
      · subst hgap
        obtain rfl : s = s' := Option.some.inj (hk.before.symm.trans hk'.before)
        obtain rfl : t = t' := Option.some.inj (hk.after.symm.trans hk'.after)
        have hnearer := hk.nearer_mono hs htime htime' hk' hle
        split
        · split <;> omega
        · rename_i hfarther
          rw [if_neg (mt hnearer hfarther)]
      · split <;> split <;> omega

end

open OrderedScalar (rank)
open RoundedScalar (isNumber_of_isFinite)

/-- Among finite times that do not go back, the search ends at the row nearest to the target, which
is first brought between the first and the last time; and at no earlier row for a later target. -/
theorem nearestTime_isNearest {α β γ : Type} [Scalar α] [LinearOrder β] [AddCommGroup γ]
    [LinearOrder γ] [IsOrderedAddMonoid γ] [RoundedScalar α β γ] {times : Array α}
    {first last target : α} (hs : SampleTimes times) (hfirst : times[0]? = some first)
    (hlast : times[times.size - 1]? = some last) (ht : Scalar.isFinite target = true) :
    IsNearest times (within first last target) (nearestTime times target) ∧
      ∀ target', Scalar.isFinite target' = true → Scalar.atMost target target' = true →
        nearestTime times target ≤ nearestTime times target' := by
  have hf := hs.isFinite hfirst
  have hl := hs.isFinite hlast
  have hends : rank first ≤ rank last :=
    hs.ascending.rank_le 0 _ first last (Nat.zero_le _) hfirst hlast
  have hwithin {u : α} (hu : Scalar.isFinite u = true) :
      Scalar.isFinite (within first last u) = true ∧
        rank (within first last u) = min (max (rank u) (rank first)) (rank last) := by
    have hu' := isNumber_of_isFinite hu
    have hf' := isNumber_of_isFinite hf
    have hl' := isNumber_of_isFinite hl
    exact ⟨of_within (p := (Scalar.isFinite · = true)) hu' hf' hl' hu hf hl,
      (rank_within hu' hf' hl').2⟩
  obtain ⟨htime, hrank⟩ := hwithin ht
  have hge : rank first ≤ rank (within first last target) :=
    hrank ▸ le_min (le_max_right _ _) hends
  have hle : rank (within first last target) ≤ rank last := hrank ▸ min_le_right _ _
  constructor
  · rw [nearestTime_eq_within hfirst hlast]
    rcases on_or_between hfirst hlast hge hle with ⟨k, t, hk, hkt, hsame⟩ | ⟨k, s, t, hk⟩
    · rw [nearestWithin_on hs.ascending (isNumber_of_isFinite htime) hk hkt hsame]
      exact .of_on hs htime hk hkt hsame
    · rw [nearestWithin_between hs htime hk]
      exact .of_between hs htime hk
  · intro target' ht' hlater
    obtain ⟨htime', hrank'⟩ := hwithin ht'
    have horder : rank target ≤ rank target' :=
      (RoundedScalar.atMost_iff (isNumber_of_isFinite ht) (isNumber_of_isFinite ht')).1 hlater
    rw [nearestTime_eq_within hfirst hlast, nearestTime_eq_within hfirst hlast]
    refine nearestWithin_mono hs htime htime' hfirst hlast hge ?_ (hrank' ▸ min_le_right _ _)
    rw [hrank, hrank']
    exact min_le_min_right _ (max_le_max_right _ horder)

/-- A target as far from the third row, which has the time of the second, as from the fourth. -/
theorem nearestTime_isNearest_tie :
    SampleTimes (#[0.0, 0.5, 0.5, 2.0] : Array Float) ∧
      IsNearest (#[0.0, 0.5, 0.5, 2.0] : Array Float) 1.25 2 ∧
      nearestTime (#[0.0, 0.5, 0.5, 2.0] : Array Float) 1.25 ≤
        nearestTime #[0.0, 0.5, 0.5, 2.0] 7.0 := by
  have hs : SampleTimes (#[0.0, 0.5, 0.5, 2.0] : Array Float) :=
    ⟨by decide +kernel, by decide +kernel⟩
  have htarget : Scalar.isFinite (1.25 : Float) = true := by decide +kernel
  have hfirst : (#[0.0, 0.5, 0.5, 2.0] : Array Float)[0]? = some 0.0 := rfl
  have hlast : (#[0.0, 0.5, 0.5, 2.0] : Array Float)[4 - 1]? = some 2.0 := rfl
  obtain ⟨hnearest, hlater⟩ := nearestTime_isNearest hs hfirst hlast htarget
  have hwithin : within (0.0 : Float) 2.0 1.25 = 1.25 := by decide +kernel
  have hrow : nearestTime (#[0.0, 0.5, 0.5, 2.0] : Array Float) 1.25 = 2 := by decide +kernel
  rw [hwithin, hrow] at hnearest
  exact ⟨hs, hnearest, hlater 7.0 (by decide +kernel) (by decide +kernel)⟩

end VirtualChannels
