import VirtualChannels.Proofs.Number.Order
import VirtualChannels.Recording.Summary

/-
  Both passes over the rows see the same samples. Going over the rows is going over the finite
  samples (`Table.foldl_visit`), and what the first pass keeps of them are their count, their sum
  and their extremes (`Tally.foldl_add`). So the two passes come to the statistics of the samples
  (`Summary.inTwoPasses_eq`).
-/

namespace VirtualChannels

/-! ## Rows that have a sample -/

/-- The finite sample of a row in a column, if it has one. -/
def sampleOf (column : Nat) (row : Array Float) : Option Float :=
  row[column]?.bind fun x => if Number.isFinite x then some x else none

theorem isFinite_of_sampleOf {column : Nat} {row : Array Float} {x : Float}
    (h : sampleOf column row = some x) : Number.isFinite x = true := by
  obtain ⟨y, -, hy⟩ := Option.bind_eq_some_iff.1 h
  split at hy
  · cases hy
    assumption
  · cases hy

/-- A test of a cell and one of its number, as each pass makes them. -/
theorem elim_sampleOf {γ : Type} (column : Nat) (row : Array Float) (skipped : γ)
    (visit : Float → γ) :
    (sampleOf column row).elim skipped visit =
      match row[column]? with
      | none => skipped
      | some x => if Number.isFinite x then visit x else skipped := by
  unfold sampleOf
  cases row[column]? with
  | none => rfl
  | some x =>
    rw [Option.bind_some]
    dsimp only
    split <;> rfl

namespace Table

theorem samples_eq (data : Table Float) (column : Nat) :
    data.samples column = data.toList.filterMap (sampleOf column) := rfl

theorem isFinite_of_mem_samples {data : Table Float} {column : Nat} {x : Float}
    (h : x ∈ data.samples column) : Number.isFinite x = true := by
  obtain ⟨row, -, hrow⟩ := List.mem_filterMap.1 (samples_eq data column ▸ h)
  exact isFinite_of_sampleOf hrow

/-- A pass that visits the finite cells of a column visits its samples in their order. -/
theorem foldl_visit {γ : Type} {visit : γ → Float → γ} {step : γ → Array Float → γ} {column : Nat}
    (hstep : ∀ c row, step c row = (sampleOf column row).elim c (visit c)) (data : Table Float)
    (start : γ) : data.foldl step start = (data.samples column).foldl visit start := by
  rw [samples_eq, ← Array.foldl_toList]
  induction data.toList generalizing start with
  | nil => rfl
  | cons row rows ih =>
    rw [List.foldl_cons, hstep]
    cases hrow : sampleOf column row with
    | none => rw [List.filterMap_cons_none hrow, Option.elim_none, ih]
    | some x => rw [List.filterMap_cons_some hrow, Option.elim_some, List.foldl_cons, ih]

end Table

/-! ## The two passes -/

namespace Tally

theorem step_eq (column : Nat) (t : Tally) (row : Array Float) :
    t.step column row = (sampleOf column row).elim t t.add :=
  (elim_sampleOf column row t t.add).symm

/-- What the first pass keeps of samples. -/
theorem foldl_add (t : Tally) (xs : List Float) :
    xs.foldl add t =
      { count := t.count + xs.length
        total := xs.foldl Scalar.add t.total
        min := Samples.least t.min xs
        max := Samples.greatest t.max xs } := by
  have hcount (n k : Nat) : n + 1 + k = n + (k + 1) := Nat.succ_add_eq_add_succ n k
  induction xs generalizing t with
  | nil => rfl
  | cons x xs ih =>
    rw [List.foldl_cons, ih, List.length_cons, ← hcount]
    simp only [add, Samples.least, Samples.greatest, List.foldl_cons, Scalar.less, Scalar.add,
      decide_eq_true_eq]

end Tally

theorem squaresStep_eq (center : Float) (column : Nat) (squares : Float) (row : Array Float) :
    squaresStep center column squares row = (sampleOf column row).elim squares fun x =>
      Scalar.add squares (Samples.squaredDeviation center x) :=
  (elim_sampleOf column row squares _).symm

/-- The second pass sums the squared deviations of the samples. -/
theorem foldl_squaresStep (data : Table Float) (center : Float) (column : Nat) :
    data.foldl (squaresStep center column) 0.0 =
      Samples.sum ((data.samples column).map (Samples.squaredDeviation center)) := by
  unfold Samples.sum
  rw [List.foldl_map]
  exact data.foldl_visit (squaresStep_eq center column) 0.0

/-! ## Infinities to start with -/

namespace Number

theorem lt_infinity {x : Float} (h : isFinite x = true) :
    x < infinity ∧ withSign true infinityBits < x := by
  have hx := isNumber_of_isFinite h
  have hinfinite (negative : Bool) := isNumber_withSign negative (Nat.le_refl infinityBits)
  have hrank (negative : Bool) := rank_withSign negative (Nat.le_refl infinityBits)
  have hbetween := between_infinities (isNegative x) (of_decide_eq_true h)
  have hpositive : infinity = withSign false infinityBits := rfl
  rw [hpositive, lt_iff hx (hinfinite false), lt_iff (hinfinite true) hx, hrank, hrank]
  exact ⟨hbetween.2, hbetween.1⟩

end Number

/-- The first finite sample takes the places of the infinities. -/
theorem Samples.extremes_cons {x : Float} (h : Number.isFinite x = true) (xs : List Float) :
    least Number.infinity (x :: xs) = least x xs ∧
      greatest (Number.withSign true Number.infinityBits) (x :: xs) = greatest x xs := by
  obtain ⟨hbelow, habove⟩ := Number.lt_infinity h
  have hless : Scalar.less x Number.infinity = true := decide_eq_true hbelow
  have hgreater : Scalar.less (Number.withSign true Number.infinityBits) x = true :=
    decide_eq_true habove
  unfold least greatest
  rw [List.foldl_cons, List.foldl_cons, if_pos hless, if_pos hgreater]
  exact ⟨rfl, rfl⟩

/-- The passes come to the statistics of the samples. -/
theorem Summary.inTwoPasses_eq (data : Table Float) (column : Nat) :
    inTwoPasses data column = ofColumn data column := by
  have htally : Tally.ofRows data column = (data.samples column).foldl Tally.add {} :=
    data.foldl_visit (Tally.step_eq column) {}
  unfold inTwoPasses ofColumn
  simp only [foldl_squaresStep, htally, Tally.foldl_add, Nat.zero_add]
  cases hsamples : data.samples column with
  | nil => rfl
  | cons x xs =>
    obtain ⟨hmin, hmax⟩ := Samples.extremes_cons
      (Table.isFinite_of_mem_samples (hsamples ▸ List.mem_cons_self)) xs
    rw [hmin, hmax, List.length_cons, if_neg (Nat.succ_ne_zero _)]
    rfl

end VirtualChannels
