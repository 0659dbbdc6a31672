import VirtualChannels.Proofs.Formula.Tokens
import VirtualChannels.Proofs.Reference.Reserved

/-
  The identifiers of a list of references. Each is the one its matched text makes, or that with
  the least number which no identifier before it has (`Identifier.isFirstFree_fresh`); the
  search for the number ends because there are fewer identifiers before it than numbers are
  tried. Main result: they are told apart, are lexed as one identifier each, and name no
  function or constant where these are reserved (`Identifier.assign_of_references`).
-/

namespace VirtualChannels

open Formula

namespace Identifier

/-- The base, where it is not in use; else the base with the least number from 2 on with which it is
not in use, and at most so many are tried as there are texts in use. -/
inductive IsFirstFree (used : List Text) (base : Text) : Text → Prop
  | plain (hbase : base ∉ used) : IsFirstFree used base base
  | numbered {n : Nat} (hbase : base ∈ used) (hn : 2 ≤ n) (hle : n ≤ used.length + 1)
      (hfree : numbered base n ∉ used)
      (hleast : ∀ k, 2 ≤ k → k < n → Identifier.numbered base k ∈ used) :
      IsFirstFree used base (Identifier.numbered base n)

theorem getElem_candidates_succ {base : Text} {used k : Nat}
    (h : k + 1 < (candidates base used).length) :
    (candidates base used)[k + 1] = numbered base (k + 2) := by
  simp [candidates]

theorem isFirstFree_fresh (used : List Text) (base : Text) :
    IsFirstFree used base (fresh used base) := by
  obtain ⟨hmem, hfree⟩ := fresh_mem_and_not_mem used base
  obtain ⟨c, hc⟩ : ∃ c, (candidates base used.length).find? (fun c => !used.contains c) = some c := by
    refine Option.isSome_iff_exists.1 (List.find?_isSome.2 ⟨_, hmem, ?_⟩)
    simpa using hfree
  have hfresh : fresh used base = c := by rw [fresh, hc, Option.getD_some]
  obtain ⟨-, i, hi, hget, hbefore⟩ := List.find?_eq_some_iff_getElem.1 hc
  have hused (j : Nat) (hj : j < i) : (candidates base used.length)[j] ∈ used := by
    simpa using hbefore j hj
  rw [hfresh] at hfree ⊢
  cases i with
  | zero =>
    obtain rfl : base = c := hget
    exact .plain hfree
  | succ n =>
    rw [getElem_candidates_succ hi] at hget
    subst hget
    have hlength : n + 1 < used.length + 1 := by simpa [candidates] using hi
    refine .numbered (hused 0 (Nat.succ_pos n)) (Nat.le_add_left 2 n) hlength
      hfree fun k hk hlt => ?_
    obtain ⟨j, rfl⟩ := Nat.exists_eq_add_of_le' hk
    have hcandidate := hused (j + 1) (by omega)
    rwa [getElem_candidates_succ] at hcandidate

end Identifier

theorem Formula.tokenize_of_isIdentifier {t : Text} (h : t.IsIdentifier) :
    tokenize t = .ok [⟨.identifier t, 0⟩, ⟨.finish, t.length⟩] := by
  have htokens := tokenizeFrom_identifier_stop h 0 (y := []) fun _ hu => nomatch hu
  rw [List.append_nil, tokenizeFrom, Nat.zero_add] at htokens
  exact htokens

namespace Identifier

/-- The matched texts of references are given an identifier each, in order of first appearance:
the one that the text makes, or that with the least number which tells it from those before it.
No two are the same, and each is lexed as one identifier. Where every reference was found with
functions and constants reserved, none is the name of a function or constant in any letter case.
-/
theorem assign_of_references (rs : List Reference) :
    Assignment.names (assign (rs.map Reference.matched)) = (rs.map Reference.matched).eraseDups ∧
    ((assign (rs.map Reference.matched)).map Prod.snd).Nodup ∧
    (∀ p ∈ assign (rs.map Reference.matched),
      tokenize p.2 = .ok [⟨.identifier p.2, 0⟩, ⟨.finish, p.2.length⟩]) ∧
    (∀ earlier p later, assign (rs.map Reference.matched) = earlier ++ p :: later →
      IsFirstFree (earlier.map Prod.snd) p.1.toIdentifier p.2) ∧
    ((∀ r ∈ rs, ∃ o formula, (∀ n ∈ builtinNames, n ∈ ScanOptions.reserved o) ∧
        r ∈ references o formula) →
      ∀ p ∈ assign (rs.map Reference.matched),
        Builtin.find? p.2 = none ∧ Constant.find? p.2 = none) := by
  refine ⟨names_assign _, (assign_distinct _).identifiers, fun p hp => ?_,
    fun earlier p later h => ?_, fun hrs p hp => ?_⟩
  · obtain ⟨used, hfresh⟩ := assign_fresh _ p hp
    rw [hfresh]
    exact tokenize_of_isIdentifier (isIdentifier_fresh used p.1)
  · rw [eq_fresh_of_assign h]
    exact isFirstFree_fresh _ _
  · obtain ⟨r, hr, hmatched⟩ := List.mem_map.1 (mem_names_assign.1 (List.mem_map_of_mem hp))
    obtain ⟨o, formula, ho, href⟩ := hrs r hr
    obtain ⟨used, hfresh⟩ := assign_fresh _ p hp
    have hfree := isReserved_fresh ho href used
    rw [hmatched, ← hfresh, ← Bool.not_eq_true, isReserved_default_iff, not_or,
      Option.not_isSome_iff_eq_none, Option.not_isSome_iff_eq_none] at hfree
    exact hfree

/-- Texts that make the same identifier get different numbers, also where one is that identifier. -/
theorem assign_of_colliding_references :
    (assign ((references {} "RPM[-1]+RPM[+1]+\"A\"+_A_").map Reference.matched)).map Prod.snd =
      ["RPM__1_", "RPM__1__2", "_A_", "_A__2"] ∧
    ∀ p ∈ assign ((references {} "RPM[-1]+RPM[+1]+\"A\"+_A_").map Reference.matched),
      Builtin.find? p.2 = none ∧ Constant.find? p.2 = none :=
  ⟨by decide +kernel,
    (assign_of_references _).2.2.2.2 fun _ hr => ⟨{}, _, fun _ hn => hn, hr⟩⟩

end Identifier

end VirtualChannels
