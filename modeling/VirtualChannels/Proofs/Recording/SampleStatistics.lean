import Mathlib.Algebra.BigOperators.Group.List.Basic
import Mathlib.Algebra.Order.BigOperators.Group.List
import Mathlib.Tactic.Ring
import VirtualChannels.Proofs.Number.Rationals
import VirtualChannels.Proofs.Recording.NearestSample
import VirtualChannels.Proofs.Recording.TwoPasses

/-
  What the statistics of a column say. They depend on the finite samples in their order and on
  nothing else, and the least and the greatest of them are samples, since comparing rounds nothing.
  Sums and quotients are rounded: what a mean and a variance are is said of the same computation
  with rational numbers, on the exact values of the samples (`Summary.exactly`). Both computations
  are `Summary.ofSamples`, once with doubles and once with rational numbers.
-/

namespace VirtualChannels

namespace Samples

/-! ## Extremes -/

/-- The first sample that no other is better than. -/
def foremost {α : Type} (better : α → α → Bool) (first : α) (xs : List α) : α :=
  xs.foldl (fun m x => if better x m then x else m) first

section
variable {α γ : Type} {better : α → α → Bool} {first x : α} {xs : List α}

theorem mem_of_mem_kept {y : α} (hy : y ∈ (if better x first then x else first) :: xs) :
    y ∈ first :: x :: xs := by
  rcases List.mem_cons.1 hy with rfl | hy
  · split
    · exact List.mem_cons_of_mem _ List.mem_cons_self
    · exact List.mem_cons_self
  · exact List.mem_cons_of_mem _ (List.mem_cons_of_mem _ hy)

/-- Where being better is having the smaller key, the foremost sample has the smallest one. -/
theorem foremost_isLeast (key : α → ℚ) (h : ∀ y ∈ first :: xs, ∀ z ∈ first :: xs,
    better y z = true ↔ key y < key z) :
    foremost better first xs ∈ first :: xs ∧
      ∀ y ∈ first :: xs, key (foremost better first xs) ≤ key y := by
  induction xs generalizing first with
  | nil => exact ⟨List.mem_cons_self, fun y hy => (congrArg key (List.mem_singleton.1 hy)).ge⟩
  | cons x xs ih =>
    obtain ⟨hmem, hle⟩ := ih fun y hy z hz => h y (mem_of_mem_kept hy) z (mem_of_mem_kept hz)
    have hcompare := h x (List.mem_cons_of_mem _ List.mem_cons_self) first List.mem_cons_self
    have hkept : key (if better x first then x else first) ≤ key first ∧
        key (if better x first then x else first) ≤ key x := by
      split
      · rename_i hbetter
        exact ⟨(hcompare.1 hbetter).le, le_rfl⟩
      · rename_i hworse
        exact ⟨le_rfl, not_lt.1 (mt hcompare.2 hworse)⟩
    refine ⟨mem_of_mem_kept hmem, fun y hy => ?_⟩
    have hhead := hle _ List.mem_cons_self
    rcases List.mem_cons.1 hy with rfl | hy
    · exact hhead.trans hkept.1
    · rcases List.mem_cons.1 hy with rfl | hy
      · exact hhead.trans hkept.2
      · exact hle y (List.mem_cons_of_mem _ hy)

/-- A map that keeps which of two is better keeps the foremost sample. -/
theorem foremost_map {f : α → γ} {better' : γ → γ → Bool} (h : ∀ y ∈ first :: xs,
    ∀ z ∈ first :: xs, better y z = better' (f y) (f z)) :
    f (foremost better first xs) = foremost better' (f first) (xs.map f) := by
  induction xs generalizing first with
  | nil => rfl
  | cons x xs ih =>
    have hrest := @ih (if better x first then x else first) fun y hy z hz =>
      h y (mem_of_mem_kept hy) z (mem_of_mem_kept hz)
    have hkept : f (if better x first then x else first) =
        if better' (f x) (f first) then f x else f first := by
      rw [← h x (List.mem_cons_of_mem _ List.mem_cons_self) first List.mem_cons_self]
      exact apply_ite f _ _ _
    rw [hkept] at hrest
    exact hrest

/-- Rational keys tell the least and the greatest sample apart from the others. -/
theorem extremes_isLeast [Scalar α] (key : α → ℚ)
    (h : ∀ y ∈ x :: xs, ∀ z ∈ x :: xs, Scalar.less y z = true ↔ key y < key z) :
    (least x xs ∈ x :: xs ∧ ∀ y ∈ x :: xs, key (least x xs) ≤ key y) ∧
      greatest x xs ∈ x :: xs ∧ ∀ y ∈ x :: xs, key y ≤ key (greatest x xs) := by
  have hopposite : ∀ y ∈ x :: xs, ∀ z ∈ x :: xs, Scalar.less z y = true ↔ -key y < -key z :=
    fun y hy z hz => (h z hz y hy).trans neg_lt_neg_iff.symm
  have hgreatest := foremost_isLeast (fun y => -key y) hopposite
  exact ⟨foremost_isLeast key h, hgreatest.1, fun y hy => neg_le_neg_iff.1 (hgreatest.2 y hy)⟩

end

/-! ## Sums, means and variances of rational numbers -/

section
variable {x : ℚ} {xs : List ℚ}

theorem less_iff (y z : ℚ) : Scalar.less y z = true ↔ y < z := decide_eq_true_iff

theorem sum_eq (xs : List ℚ) : sum xs = xs.sum := List.sum_eq_foldl.symm

theorem length_mul_mean (h : xs ≠ []) : xs.length * mean xs = xs.sum := by
  have hlength : (xs.length : ℚ) ≠ 0 := Nat.cast_ne_zero.2 (mt List.length_eq_zero_iff.1 h)
  show xs.length * (sum xs / xs.length) = xs.sum
  rw [mul_div_cancel₀ _ hlength, sum_eq]

/-- The mean lies between the least and the greatest sample. -/
theorem least_le_mean_le_greatest :
    least x xs ≤ mean (x :: xs) ∧ mean (x :: xs) ≤ greatest x xs := by
  obtain ⟨⟨-, hleast⟩, -, hgreatest⟩ :=
    extremes_isLeast id fun y (_ : y ∈ x :: xs) z _ => less_iff y z
  have hlength : (0 : ℚ) < (x :: xs).length := Nat.cast_pos.2 (Nat.succ_pos _)
  have hmean := length_mul_mean (List.cons_ne_nil x xs)
  constructor
  · refine le_of_mul_le_mul_left ?_ hlength
    rw [hmean, ← nsmul_eq_mul]
    exact List.card_nsmul_le_sum _ _ hleast
  · refine le_of_mul_le_mul_left ?_ hlength
    rw [hmean, ← nsmul_eq_mul]
    exact List.sum_le_card_nsmul _ _ hgreatest

theorem sum_squaredDeviation (center : ℚ) (xs : List ℚ) :
    sum (xs.map (squaredDeviation center)) = (xs.map fun y => (y - center) ^ 2).sum := by
  rw [sum_eq]
  congr 1
  exact List.map_congr_left fun y _ => (pow_two (y - center)).symm

theorem pred_length_mul_variance (h : xs ≠ []) :
    (xs.length - 1) * variance xs = (xs.map fun y => (y - mean xs) ^ 2).sum := by
  rw [← sum_squaredDeviation]
  by_cases hmany : 1 < xs.length
  · have hpred : ((xs.length - 1 : ℕ) : ℚ) = xs.length - 1 := Nat.cast_pred (by omega)
    have hne : (xs.length - 1 : ℚ) ≠ 0 := hpred ▸ Nat.cast_ne_zero.2 (by omega)
    unfold variance
    rw [if_pos hmany]
    show (xs.length - 1) * (sum (xs.map (squaredDeviation (mean xs))) / (xs.length - 1 : ℕ)) = _
    rw [hpred, mul_div_cancel₀ _ hne]
  · -- A single sample is its mean.
    obtain ⟨x, rfl⟩ := List.length_eq_one_iff.1
      (Nat.le_antisymm (Nat.not_lt.1 hmany) (List.length_pos_iff.2 h))
    have hmean : mean [x] = x := by
      have hlength := length_mul_mean (List.cons_ne_nil x [])
      simpa using hlength
    rw [hmean, sum_squaredDeviation]
    simp

/-- A rearrangement has the same mean and variance. -/
theorem mean_variance_perm {ys : List ℚ} (h : xs.Perm ys) :
    mean xs = mean ys ∧ variance xs = variance ys := by
  have hmean : mean xs = mean ys := by
    unfold mean
    rw [sum_eq, sum_eq, h.sum_eq, h.length_eq]
  refine ⟨hmean, ?_⟩
  unfold variance
  rw [hmean, sum_eq, sum_eq, (h.map _).sum_eq, h.length_eq]

end

end Samples

/-! ## Statistics of columns -/

namespace Summary

theorem ofSamples_perm {xs ys : List ℚ} (h : xs.Perm ys) : ofSamples xs = ofSamples ys := by
  cases xs with
  | nil => rw [List.nil_perm.1 h]
  | cons x xs =>
    cases ys with
    | nil => exact absurd h.length_eq (Nat.succ_ne_zero _)
    | cons y ys =>
      obtain ⟨hmean, hvariance⟩ := Samples.mean_variance_perm h
      obtain ⟨⟨hleast, hle⟩, hgreatest, hge⟩ := Samples.extremes_isLeast id
        fun y (_ : y ∈ x :: xs) z _ => Samples.less_iff y z
      obtain ⟨⟨hleast', hle'⟩, hgreatest', hge'⟩ := Samples.extremes_isLeast id
        fun z (_ : z ∈ y :: ys) z' _ => Samples.less_iff z z'
      have hmin : Samples.least x xs = Samples.least y ys :=
        le_antisymm (hle _ (h.mem_iff.2 hleast')) (hle' _ (h.mem_iff.1 hleast))
      have hmax : Samples.greatest x xs = Samples.greatest y ys :=
        le_antisymm (hge' _ (h.mem_iff.1 hgreatest)) (hge _ (h.mem_iff.2 hgreatest'))
      simp only [ofSamples, hmean, hvariance, hmin, hmax]

/-- The statistics of a column in exact arithmetic. -/
def exactly (data : Table Float) (column : Nat) : Summary ℚ :=
  ofSamples ((data.samples column).map Number.toRat)

/-- The least and the greatest of some samples, and how far they are apart. -/
structure Spans (s : Summary Float) (xs : List Float) : Prop where
  min_mem : s.min ∈ xs
  max_mem : s.max ∈ xs
  min_le : ∀ x ∈ xs, s.min ≤ x
  le_max : ∀ x ∈ xs, x ≤ s.max
  range : s.range = s.max - s.min

/-- What the statistics of some samples are if nothing is rounded. -/
structure IsExact (s : Summary ℚ) (xs : List ℚ) : Prop where
  mean : xs.length * s.mean = xs.sum
  between : s.min ≤ s.mean ∧ s.mean ≤ s.max
  variance : (xs.length - 1) * s.variance = (xs.map fun x => (x - s.mean) ^ 2).sum
  single : xs.length = 1 → s.variance = 0
  range : s.range = s.max - s.min

theorem isExact_ofSamples {xs : List ℚ} (h : xs ≠ []) : (ofSamples xs).IsExact xs := by
  obtain ⟨x, rest, rfl⟩ := List.exists_cons_of_ne_nil h
  exact
    { mean := Samples.length_mul_mean h
      between := Samples.least_le_mean_le_greatest
      variance := Samples.pred_length_mul_variance h
      single := fun hone => if_neg (hone ▸ Nat.lt_irrefl 1)
      range := rfl }

section
variable {data : Table Float} {column : Nat}

theorem less_toRat {x y : Float} (hx : x ∈ data.samples column) (hy : y ∈ data.samples column) :
    Scalar.less x y = Scalar.less (Number.toRat x) (Number.toRat y) := by
  rw [Bool.eq_iff_iff, Samples.less_iff, Number.toRat_lt_iff (Table.isFinite_of_mem_samples hx)
    (Table.isFinite_of_mem_samples hy)]
  exact decide_eq_true_iff

/-- The extremes of doubles are not rounded. -/
theorem spans_inTwoPasses (h : data.samples column ≠ []) :
    (inTwoPasses data column).Spans (data.samples column) ∧
      Number.toRat (inTwoPasses data column).min = (exactly data column).min ∧
      Number.toRat (inTwoPasses data column).max = (exactly data column).max := by
  have hle {x y : Float} (hx : x ∈ data.samples column) (hy : y ∈ data.samples column) :=
    Number.toRat_le_iff (Table.isFinite_of_mem_samples hx) (Table.isFinite_of_mem_samples hy)
  have hless {x y : Float} (hx : x ∈ data.samples column) (hy : y ∈ data.samples column) :=
    less_toRat hx hy
  obtain ⟨x, xs, hsamples⟩ := List.exists_cons_of_ne_nil h
  rw [inTwoPasses_eq, ofColumn, exactly]
  rw [hsamples] at hle hless ⊢
  obtain ⟨⟨hmin, hmin_le⟩, hmax, hle_max⟩ := Samples.extremes_isLeast Number.toRat
    fun y hy z hz => (Bool.eq_iff_iff.1 (hless hy hz)).trans (Samples.less_iff _ _)
  refine ⟨⟨hmin, hmax, fun y hy => (hle hmin hy).1 (hmin_le y hy),
    fun y hy => (hle hy hmax).1 (hle_max y hy), rfl⟩, ?_, ?_⟩
  · exact Samples.foremost_map fun y hy z hz => hless hy hz
  · exact Samples.foremost_map fun y hy z hz => hless hz hy

end

end Summary

namespace Table

theorem samples_append (data data' : Table Float) (column : Nat) :
    (data ++ data').samples column = data.samples column ++ data'.samples column := by
  rw [samples_eq, samples_eq, samples_eq, Array.toList_append, List.filterMap_append]

theorem samples_of_no_sample {rows : Table Float} {column : Nat}
    (h : ∀ row ∈ rows, ∀ x, row[column]? = some x → Number.isFinite x = false) :
    rows.samples column = [] := by
  rw [samples_eq, List.filterMap_eq_nil_iff]
  intro row hrow
  rw [sampleOf, Option.bind_eq_none_iff]
  intro x hx
  rw [h row (Array.mem_def.2 hrow) x hx]
  rfl

end Table

/-- The statistics of a column, which two passes compute, depend on its finite samples in their
order: rows that are short, or have no finite cell there, change nothing wherever they stand. The
least and the greatest are samples and bound all others. The mean and the variance are those of
`Summary.ofSamples`, which rounds with doubles; with the rational numbers in their place the mean
times the count is the sum and lies between the extremes, the variance times the count less one is
the sum of the squared deviations, and the order of the rows makes no difference. -/
theorem statistics_of_samples (data : Table Float) (column : Nat) :
    Summary.inTwoPasses data column = Summary.ofSamples (data.samples column) ∧
    (∀ data' : Table Float, data'.samples column = data.samples column →
      Summary.inTwoPasses data' column = Summary.inTwoPasses data column) ∧
    (∀ before rows after : Table Float, data = before ++ after →
      (∀ row ∈ rows, ∀ x, row[column]? = some x → Number.isFinite x = false) →
      Summary.inTwoPasses (before ++ rows ++ after) column = Summary.inTwoPasses data column) ∧
    (data.samples column ≠ [] →
      (Summary.inTwoPasses data column).Spans (data.samples column) ∧
      (Summary.exactly data column).IsExact ((data.samples column).map Number.toRat) ∧
      Number.toRat (Summary.inTwoPasses data column).min = (Summary.exactly data column).min ∧
      Number.toRat (Summary.inTwoPasses data column).max = (Summary.exactly data column).max) ∧
    ∀ data' : Table Float, data'.toList.Perm data.toList →
      Summary.exactly data' column = Summary.exactly data column := by
  have hsamples {data' : Table Float} (h : data'.samples column = data.samples column) :
      Summary.inTwoPasses data' column = Summary.inTwoPasses data column := by
    rw [Summary.inTwoPasses_eq, Summary.inTwoPasses_eq, Summary.ofColumn, h]
    rfl
  refine ⟨Summary.inTwoPasses_eq data column, fun data' => hsamples, ?_, ?_, ?_⟩
  · intro before rows after hdata hrows
    apply hsamples
    rw [hdata, Table.samples_append, Table.samples_append, Table.samples_append,
      Table.samples_of_no_sample hrows, List.append_nil]
  · intro h
    obtain ⟨hspans, hmin, hmax⟩ := Summary.spans_inTwoPasses h
    exact ⟨hspans, Summary.isExact_ofSamples (mt List.map_eq_nil_iff.1 h), hmin, hmax⟩
  · intro data' h
    exact Summary.ofSamples_perm ((h.filterMap _).map _)

/-- A short row and one with no number stand between the two samples. -/
theorem statistics_of_samples_ragged :
    (∀ row ∈ (#[#[], #[Number.notANumber]] : Table Float), ∀ x, row[0]? = some x →
      Number.isFinite x = false) ∧
    Table.samples (#[#[1.0], #[3.0]] : Table Float) 0 = [1.0, 3.0] ∧
    (#[#[3.0], #[1.0]] : Table Float).toList.Perm (#[#[1.0], #[3.0]] : Table Float).toList ∧
    Summary.inTwoPasses #[#[1.0], #[], #[Number.notANumber], #[3.0]] 0 =
      Summary.inTwoPasses #[#[1.0], #[3.0]] 0 ∧
    (Summary.inTwoPasses #[#[1.0], #[3.0]] 0).Spans [1.0, 3.0] ∧
    (Summary.exactly #[#[1.0], #[3.0]] 0).IsExact [Number.toRat 1.0, Number.toRat 3.0] ∧
    Summary.exactly #[#[3.0], #[1.0]] 0 = Summary.exactly #[#[1.0], #[3.0]] 0 := by
  have hrows : ∀ row ∈ (#[#[], #[Number.notANumber]] : Table Float), ∀ x, row[0]? = some x →
      Number.isFinite x = false := by
    intro row hrow x hx
    rcases List.mem_pair.1 (Array.mem_def.1 hrow) with rfl | rfl
    · cases hx
    · cases hx
      decide +kernel
  have hsamples : Table.samples (#[#[1.0], #[3.0]] : Table Float) 0 = [1.0, 3.0] := by
    decide +kernel
  have hperm : (#[#[3.0], #[1.0]] : Table Float).toList.Perm
      (#[#[1.0], #[3.0]] : Table Float).toList := .swap _ _ _
  obtain ⟨-, -, hadded, hsome, hrearranged⟩ := statistics_of_samples #[#[1.0], #[3.0]] 0
  obtain ⟨hspans, hexact, -, -⟩ := hsome (by rw [hsamples]; exact List.cons_ne_nil _ _)
  rw [hsamples] at hspans hexact
  have hjoined : (#[#[1.0]] ++ #[#[], #[Number.notANumber]] ++ #[#[3.0]] : Table Float) =
      #[#[1.0], #[], #[Number.notANumber], #[3.0]] := rfl
  have hsame := hadded #[#[1.0]] #[#[], #[Number.notANumber]] #[#[3.0]] rfl hrows
  rw [hjoined] at hsame
  exact ⟨hrows, hsamples, hperm, hsame, hspans, hexact, hrearranged #[#[3.0], #[1.0]] hperm⟩

end VirtualChannels
