import VirtualChannels.Proofs.Recording.SinglePass

/-
  Calling an evaluation off. Only an evaluation that comes to its rows can be called off
  (`Evaluation.ofFormula_of_not_starts`), and it is exactly if the signal is raised at a checkpoint
  (`Evaluation.ofFormula_eq_cancelled_iff`). Rows that are evaluated between the signal and the
  checkpoint leave no trace: they come out as without a signal, or no row does.
-/

namespace VirtualChannels

/-- The evaluation comes to its rows: there are some, the text with identifiers parses, and all
names are bound. -/
structure Evaluation.Starts (o : ScanOptions) (formula : Text) (b : Bindings)
    (data : Table Float) : Prop where
  rows : data.size ≠ 0
  parses : (Formula.parse (substitute o formula).text).isOk = true
  bound : b.Cover (references o formula)

theorem isCheckpoint_iff {row : Nat} : isCheckpoint row = true ↔ 1024 ∣ row := by
  unfold isCheckpoint
  rw [beq_iff_eq]
  exact (Nat.dvd_iff_mod_eq_zero).symm

theorem isCancelled_iff {aborted : Nat → Bool} {count : Nat} :
    isCancelled aborted count = true ↔ ∃ m, 1024 ∣ m ∧ aborted m = true ∧ m < count := by
  unfold isCancelled
  rw [List.any_eq_true]
  constructor
  · rintro ⟨m, hm, h⟩
    obtain ⟨haborted, hcheckpoint⟩ := Bool.and_eq_true_iff.1 h
    exact ⟨m, isCheckpoint_iff.1 hcheckpoint, haborted, List.mem_range.1 hm⟩
  · rintro ⟨m, hdvd, haborted, hm⟩
    exact ⟨m, List.mem_range.2 hm, Bool.and_eq_true_iff.2 ⟨haborted, isCheckpoint_iff.2 hdvd⟩⟩

namespace Evaluation

variable {o : ScanOptions} {formula : Text} {b : Bindings} {data : Table Float}

/-- Whatever the signal does, the rows come out alike or not at all. -/
theorem ofFormula_of_starts (h : Starts o formula b data) (times : Array Float) :
    ∃ ev, ∀ aborted, ofFormula ⟨o, aborted⟩ formula b data times =
      if isCancelled aborted data.size then .error .cancelled else .ok ev := by
  obtain ⟨expr, hparse⟩ : ∃ expr, Formula.parse (substitute o formula).text = .ok expr := by
    have hparses := h.parses
    cases hparse : Formula.parse (substitute o formula).text with
    | error e =>
      rw [hparse] at hparses
      cases hparses
    | ok expr => exact ⟨expr, rfl⟩
  obtain ⟨ops, hops, -⟩ := exists_operands data h.bound exists_identifier
  have hops : operands (substitute o formula).identifiers b data
      (substitute o formula).references = .ok ops := hops
  refine ⟨.ofRows data.size fun row => finiteValue? expr (rowScope ops data times row), ?_⟩
  intro aborted
  unfold ofFormula
  rw [if_neg h.rows]
  dsimp only
  rw [hparse]
  dsimp only
  rw [hops]

/-- What keeps an evaluation from its rows is found out without a look at the signal. -/
theorem ofFormula_of_not_starts (h : ¬ Starts o formula b data) (times : Array Float) :
    ∃ outcome ≠ .error .cancelled, ∀ aborted,
      ofFormula ⟨o, aborted⟩ formula b data times = outcome := by
  unfold ofFormula
  by_cases hd : data.size = 0
  · exact ⟨.ok ⟨#[], []⟩, by rintro ⟨⟩, fun aborted => if_pos hd⟩
  · simp only [if_neg hd]
    cases hparse : Formula.parse (substitute o formula).text with
    | error e => exact ⟨.error (.parse e), by rintro ⟨⟩, fun aborted => rfl⟩
    | ok expr =>
      dsimp only
      cases hops : operands (substitute o formula).identifiers b data
          (substitute o formula).references with
      | error e =>
        refine ⟨.error e, fun he => ?_, fun aborted => rfl⟩
        cases he
        obtain ⟨name, hname⟩ := operands_error hops
        cases hname
      | ok ops => exact absurd ⟨hd, hparse ▸ rfl, (cover_of_operands hops).1⟩ h

/-- An evaluation is called off exactly if it comes to its rows and the signal is raised at a
checkpoint. -/
theorem ofFormula_eq_cancelled_iff (aborted : Nat → Bool) (times : Array Float) :
    ofFormula ⟨o, aborted⟩ formula b data times = .error .cancelled ↔
      Starts o formula b data ∧ isCancelled aborted data.size = true := by
  by_cases h : Starts o formula b data
  · obtain ⟨ev, hev⟩ := ofFormula_of_starts h times
    rw [hev aborted, and_iff_right h]
    split
    · rename_i hc
      exact iff_of_true rfl hc
    · rename_i hc
      exact iff_of_false (fun h => nomatch h) hc
  · obtain ⟨outcome, hne, houtcome⟩ := ofFormula_of_not_starts h times
    rw [houtcome aborted]
    exact iff_of_false hne fun hs => h hs.1

/-- An evaluation that is not called off has the outcome of one without a signal. -/
theorem ofFormula_eq_unsignalled {aborted : Nat → Bool} {times : Array Float}
    (h : ofFormula ⟨o, aborted⟩ formula b data times ≠ .error .cancelled) :
    ofFormula ⟨o, aborted⟩ formula b data times =
      ofFormula ⟨o, fun _ => false⟩ formula b data times := by
  by_cases hs : Starts o formula b data
  · obtain ⟨ev, hev⟩ := ofFormula_of_starts hs times
    have hc : ¬ isCancelled aborted data.size = true := fun hc =>
      h ((ofFormula_eq_cancelled_iff aborted times).2 ⟨hs, hc⟩)
    rw [hev, hev, if_neg hc, isCancelled_never]
    rfl
  · obtain ⟨outcome, -, houtcome⟩ := ofFormula_of_not_starts hs times
    rw [houtcome, houtcome]

end Evaluation

/-- With a signal that is raised from one row on, an evaluation is called off exactly if it
comes to its rows and a multiple of 1024 lies between that row and the end; the pass, which
stops there, has the same outcome. Else the outcome is the one without a signal. -/
theorem cancelled_at_checkpoint {o : ScanOptions} {data : Table Float} {aborted : Nat → Bool}
    {k : Nat} (hsignal : ∀ row < data.size, aborted row = true ↔ k ≤ row) (formula : Text)
    (b : Bindings) (times : Array Float) :
    Evaluation.inSinglePass ⟨o, aborted⟩ formula b data times =
      Evaluation.ofFormula ⟨o, aborted⟩ formula b data times ∧
    (Evaluation.ofFormula ⟨o, aborted⟩ formula b data times = .error .cancelled ↔
      Evaluation.Starts o formula b data ∧ ∃ m, 1024 ∣ m ∧ k ≤ m ∧ m < data.size) ∧
    (Evaluation.ofFormula ⟨o, aborted⟩ formula b data times ≠ .error .cancelled →
      Evaluation.ofFormula ⟨o, aborted⟩ formula b data times =
        Evaluation.ofFormula ⟨o, fun _ => false⟩ formula b data times) := by
  refine ⟨inSinglePass_eq _ formula b data times, ?_, Evaluation.ofFormula_eq_unsignalled⟩
  rw [Evaluation.ofFormula_eq_cancelled_iff, isCancelled_iff]
  refine and_congr_right fun _ => exists_congr fun m => and_congr_right fun _ => ?_
  constructor
  · rintro ⟨haborted, hm⟩
    exact ⟨(hsignal m hm).1 haborted, hm⟩
  · rintro ⟨hk, hm⟩
    exact ⟨(hsignal m hm).2 hk, hm⟩

/-- A signal at row 1025 comes too late for 2048 rows, but not for one row more. -/
theorem cancelled_at_checkpoint_rpm :
    Evaluation.ofFormula ⟨{}, fun row => 1025 ≤ row⟩ "RPM" [("RPM", 0)]
        (Array.replicate 2049 #[1.0]) #[] = .error .cancelled ∧
      Evaluation.ofFormula ⟨{}, fun row => 1025 ≤ row⟩ "RPM" [("RPM", 0)]
          (Array.replicate 2048 #[1.0]) #[] =
        Evaluation.ofFormula ⟨{}, fun _ => false⟩ "RPM" [("RPM", 0)]
          (Array.replicate 2048 #[1.0]) #[] := by
  have hsignal (count : Nat) : ∀ row < (Array.replicate count #[(1.0 : Float)]).size,
      decide (1025 ≤ row) = true ↔ 1025 ≤ row := fun row _ => decide_eq_true_iff
  obtain ⟨-, hlate, -⟩ := cancelled_at_checkpoint (o := {}) (hsignal 2049) "RPM" [("RPM", 0)] #[]
  obtain ⟨-, hearly, hsame⟩ :=
    cancelled_at_checkpoint (o := {}) (hsignal 2048) "RPM" [("RPM", 0)] #[]
  constructor
  · refine hlate.2 ⟨⟨?_, ?_, ?_⟩, 2048, by decide, by decide, ?_⟩
    · rw [Array.size_replicate]
      decide
    · decide +kernel
    · decide +kernel
    · rw [Array.size_replicate]
      decide
  · refine hsame fun hc => ?_
    obtain ⟨-, m, ⟨q, rfl⟩, hk, hm⟩ := hearly.1 hc
    rw [Array.size_replicate] at hm
    omega

end VirtualChannels
