import VirtualChannels.Proofs.Formula.Scopes
import VirtualChannels.Proofs.Reference.Substitution
import VirtualChannels.Recording.Records

/-
  The operands that stand for the references of a formula. Names are bound unless a channel is
  missing (`bindNames_eq_error_iff`), bound names give every reference its operand
  (`exists_operands`), and the scope of a row has a value for the identifiers that the scope of
  a check has a value for (`rowScope_sameNames`).
-/

namespace VirtualChannels

/-! ## Binding names -/

theorem findChannel?_isNone_iff {channels : List Text} {name : Text} :
    (findChannel? channels name).isNone = true ↔
      ∀ c ∈ channels, Text.lowercase c ≠ Text.lowercase name := by
  rw [Option.isNone_iff_eq_none, findChannel?, List.findIdx?_eq_none_iff]
  constructor
  · intro h c hc
    exact beq_eq_false_iff_ne.1 (h c hc)
  · intro h c hc
    exact beq_eq_false_iff_ne.2 (h c hc)

theorem missingChannels_cons (channels names : List Text) (name : Text) :
    missingChannels channels (name :: names) =
      if (findChannel? channels name).isNone then name :: missingChannels channels names
      else missingChannels channels names := List.filter_cons

/-- Names are bound if no channel is missing; else the first that is missing is reported. -/
theorem bindNames_cases (channels names : List Text) :
    (missingChannels channels names = [] ∧
      ∃ b, bindNames channels names = .ok b ∧ Assignment.names b = names) ∨
    ∃ first more, missingChannels channels names = first :: more ∧
      bindNames channels names = .error (.channelNotFound first) := by
  induction names with
  | nil => exact Or.inl ⟨rfl, [], rfl, rfl⟩
  | cons name names ih =>
    rw [missingChannels_cons, bindNames]
    cases hc : findChannel? channels name with
    | none => exact Or.inr ⟨name, _, rfl, rfl⟩
    | some column =>
      rw [Option.isNone_some, if_neg Bool.false_ne_true]
      rcases ih with ⟨hm, b, hb, hn⟩ | ⟨first, more, hm, hb⟩
      · refine Or.inl ⟨hm, (name, column) :: b, by rw [hb], ?_⟩
        rw [← hn]
        rfl
      · exact Or.inr ⟨first, more, hm, by rw [hb]⟩

theorem bindNames_eq_error_iff {channels names : List Text} {e : FormulaFault} :
    bindNames channels names = .error e ↔
      ∃ first more, missingChannels channels names = first :: more ∧
        e = .channelNotFound first := by
  rcases bindNames_cases channels names with ⟨hm, b, hb, -⟩ | ⟨first, more, hm, hb⟩
  · rw [hm, hb]
    constructor
    · intro h; cases h
    · rintro ⟨first, more, h, -⟩; cases h
  · rw [hm, hb]
    constructor
    · intro h
      cases h
      exact ⟨first, more, rfl, rfl⟩
    · rintro ⟨first', more', h, rfl⟩
      cases h
      rfl

theorem bindNames_eq_ok {channels names : List Text} {b : Bindings}
    (h : bindNames channels names = .ok b) :
    missingChannels channels names = [] ∧ Assignment.names b = names := by
  rcases bindNames_cases channels names with ⟨hm, b', hb, hn⟩ | ⟨first, more, -, hb⟩
  · rw [h] at hb
    cases hb
    exact ⟨hm, hn⟩
  · rw [h] at hb
    cases hb

theorem Reference.mem_distinctNames {refs : List Reference} {name : Text} :
    name ∈ distinctNames refs ↔ ∃ r ∈ refs, r.name = name := by
  rw [distinctNames, List.mem_eraseDups, List.mem_map]

/-- Every name that references read has a column. -/
def Bindings.Cover (b : Bindings) (refs : List Reference) : Prop :=
  ∀ r ∈ refs, ∃ column, Assignment.get? b r.name = some column

instance (b : Bindings) (refs : List Reference) : Decidable (b.Cover refs) :=
  decidable_of_iff (∀ r ∈ refs, (Assignment.get? b r.name).isSome = true)
    (forall₂_congr fun _ _ => Option.isSome_iff_exists)

theorem bindReferences_cover {refs : List Reference} {channels : List Text} {b : Bindings}
    (h : bindReferences refs channels = .ok b) : b.Cover refs := by
  intro r hr
  refine Option.ne_none_iff_exists'.1 fun hn => Assignment.get?_eq_none_iff.1 hn ?_
  rw [(bindNames_eq_ok h).2]
  exact Reference.mem_distinctNames.2 ⟨r, hr, rfl⟩

/-! ## Operands -/

section
variable {identifiers : Assignment Text} {b : Bindings} {refs : List Reference}

/-- The operands are those of the references, each under the identifier of its matched text. -/
theorem exists_operands (data : Table Float) (hb : b.Cover refs)
    (hi : ∀ r ∈ refs, ∃ identifier, identifiers.get? r.matched = some identifier) :
    ∃ ops, operands identifiers b data refs = .ok ops ∧
      ∀ p, p ∈ ops ↔ ∃ r ∈ refs, ∃ column, Assignment.get? b r.name = some column ∧
        identifiers.get? r.matched = some p.1 ∧ p.2 = .ofReference data r column := by
  induction refs with
  | nil => exact ⟨[], rfl, fun p => by simp⟩
  | cons r rest ih =>
    obtain ⟨ops, hops, hmem⟩ := ih (fun s hs => hb s (List.mem_cons_of_mem r hs))
      (fun s hs => hi s (List.mem_cons_of_mem r hs))
    obtain ⟨column, hcolumn⟩ := hb r List.mem_cons_self
    obtain ⟨identifier, hidentifier⟩ := hi r List.mem_cons_self
    refine ⟨(identifier, .ofReference data r column) :: ops, ?_, fun p => ?_⟩
    · rw [operands, hcolumn, hidentifier, hops]
    · rw [List.mem_cons, hmem, List.exists_mem_cons_iff]
      refine or_congr_left ⟨?_, ?_⟩
      · rintro rfl
        exact ⟨column, hcolumn, hidentifier, rfl⟩
      · rintro ⟨column', hc, hp, he⟩
        rw [hcolumn] at hc
        rw [hidentifier] at hp
        cases hc
        cases hp
        exact Prod.ext rfl he

/-- The only complaint about operands is that a name is not bound. -/
theorem operands_error {data : Table Float} {f : FormulaFault}
    (h : operands identifiers b data refs = .error f) : ∃ name, f = .channelNotBound name := by
  induction refs with
  | nil => cases h
  | cons r rest ih =>
    unfold operands at h
    split at h
    · split at h
      · rename_i e he
        cases h
        exact ih he
      · cases h
    · cases h
      exact ⟨r.name, rfl⟩

/-- Operands are there only if every reference has a column and an identifier. -/
theorem cover_of_operands {data : Table Float} {ops : Assignment Operand}
    (h : operands identifiers b data refs = .ok ops) :
    b.Cover refs ∧ ∀ r ∈ refs, ∃ identifier, identifiers.get? r.matched = some identifier := by
  induction refs generalizing ops with
  | nil => exact ⟨fun _ hr => absurd hr List.not_mem_nil, fun _ hr => absurd hr List.not_mem_nil⟩
  | cons r rest ih =>
    unfold operands at h
    split at h
    · rename_i column identifier hcolumn hidentifier
      split at h
      · cases h
      · rename_i others hothers
        obtain ⟨hcover, hidentifiers⟩ := ih hothers
        constructor
        · intro s hs
          rcases List.mem_cons.1 hs with rfl | hs
          · exact ⟨column, hcolumn⟩
          · exact hcover s hs
        · intro s hs
          rcases List.mem_cons.1 hs with rfl | hs
          · exact ⟨identifier, hidentifier⟩
          · exact hidentifiers s hs
    · cases h

end

section
variable {o : ScanOptions} {formula : Text} {b : Bindings} {data : Table Float}
  {ops : Assignment Operand}

/-- Operands under one identifier are one operand. -/
theorem eq_of_mem_operands
    (hops : operands (substitute o formula).identifiers b data (references o formula) = .ok ops)
    {p q : Text × Operand} (hp : p ∈ ops) (hq : q ∈ ops) (h : p.1 = q.1) : p.2 = q.2 := by
  obtain ⟨ops', hops', hmem⟩ := exists_operands data (cover_of_operands hops).1 exists_identifier
  rw [hops] at hops'
  cases hops'
  obtain ⟨r, hr, column, hcolumn, hi, hp⟩ := (hmem p).1 hp
  obtain ⟨r', hr', column', hcolumn', hi', hq⟩ := (hmem q).1 hq
  rw [← h] at hi'
  obtain rfl := eq_of_mem_references hr hr' (Identifier.get?_assign_injective hi hi')
  rw [hcolumn] at hcolumn'
  cases hcolumn'
  exact hp.trans hq.symm

/-- A name has a value at a row exactly if it is the identifier of a reference. -/
theorem rowScope_isSome_iff (hb : b.Cover (references o formula))
    (hops : operands (substitute o formula).identifiers b data (references o formula) = .ok ops)
    (times : Array Float) (row : Nat) (n : Text) :
    (rowScope ops data times row n).isSome = true ↔
      n ∈ (substitute o formula).identifiers.map Prod.snd := by
  obtain ⟨ops', hops', hmem⟩ := exists_operands data hb exists_identifier
  rw [hops] at hops'
  cases hops'
  rw [rowScope, Option.isSome_map, Option.isSome_iff_ne_none, Ne, Assignment.get?_eq_none_iff,
    not_not, Assignment.names, List.mem_map]
  refine Iff.trans ?_ Identifier.mem_identifiers_assign.symm
  constructor
  · rintro ⟨p, hp, rfl⟩
    obtain ⟨r, hr, -, -, hi, -⟩ := (hmem p).1 hp
    exact ⟨r.matched, List.mem_map.2 ⟨r, hr, rfl⟩, hi⟩
  · rintro ⟨m, hm, hi⟩
    obtain ⟨r, hr, rfl⟩ := List.mem_map.1 hm
    obtain ⟨column, hcolumn⟩ := hb r hr
    exact ⟨(n, .ofReference data r column), (hmem _).2 ⟨r, hr, column, hcolumn, hi, rfl⟩, rfl⟩

theorem rowScope_eq_none (hb : b.Cover (references o formula))
    (hops : operands (substitute o formula).identifiers b data (references o formula) = .ok ops)
    (times : Array Float) (row : Nat) {n : Text}
    (hn : n ∉ (substitute o formula).identifiers.map Prod.snd) :
    rowScope ops data times row n = none :=
  Option.not_isSome_iff_eq_none.1 fun hsome =>
    hn ((rowScope_isSome_iff hb hops times row n).1 hsome)

/-- In a check a name has a value exactly if it has one at a row. -/
theorem rowScope_sameNames (hb : b.Cover (references o formula))
    (hops : operands (substitute o formula).identifiers b data (references o formula) = .ok ops)
    (times : Array Float) (row : Nat) :
    (onesScope (substitute o formula).identifiers).SameNames (rowScope ops data times row) := by
  intro n
  have hones : (onesScope (substitute o formula).identifiers n).isSome = true ↔
      n ∈ (substitute o formula).identifiers.map Prod.snd := by
    unfold onesScope
    split
    · rename_i h
      exact iff_of_true rfl (List.contains_iff_mem.1 h)
    · rename_i h
      exact iff_of_false Bool.false_ne_true fun hm => h (List.contains_iff_mem.2 hm)
  exact Bool.eq_iff_iff.2 (hones.trans (rowScope_isSome_iff hb hops times row n).symm)

/-- The identifier of a reference has the value of its own operand, not that of another one. -/
theorem rowScope_identifier (hb : b.Cover (references o formula))
    (hops : operands (substitute o formula).identifiers b data (references o formula) = .ok ops)
    {r : Reference} (hr : r ∈ references o formula) {identifier : Text}
    (hi : (substitute o formula).identifiers.get? r.matched = some identifier) {column : Nat}
    (hcolumn : Assignment.get? b r.name = some column) (times : Array Float) (row : Nat) :
    rowScope ops data times row identifier =
      some ((Operand.ofReference data r column).value data times row) := by
  have hsome := (rowScope_isSome_iff hb hops times row identifier).2
    (Identifier.mem_identifiers_assign.2 ⟨r.matched, List.mem_map.2 ⟨r, hr, rfl⟩, hi⟩)
  rw [rowScope, Option.isSome_map] at hsome
  obtain ⟨op, hop⟩ := Option.isSome_iff_exists.1 hsome
  obtain ⟨ops', hops', hmem⟩ := exists_operands data hb exists_identifier
  rw [hops] at hops'
  cases hops'
  obtain ⟨r', hr', column', hcolumn', hi', e⟩ := (hmem _).1 (Assignment.mem_of_get?_eq_some hop)
  obtain rfl := eq_of_mem_references hr' hr (Identifier.get?_assign_injective hi' hi)
  rw [hcolumn] at hcolumn'
  cases hcolumn'
  rw [rowScope, hop, Option.map_some]
  exact congrArg (fun op => some (op.value data times row)) e

end

end VirtualChannels
