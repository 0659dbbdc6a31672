import VirtualChannels.Text.Basic

/-
  Values under names, in the order in which the names were first given one. A later value
  replaces an earlier one of the same name where it stands.
-/

namespace VirtualChannels

abbrev Assignment (α : Type) := List (Text × α)

namespace Assignment

variable {α : Type}

def get? (a : Assignment α) (name : Text) : Option α := a.lookup name

def put : Assignment α → Text → α → Assignment α
  | [], name, x => [(name, x)]
  | (n, y) :: rest, name, x =>
    if n = name then (name, x) :: rest else (n, y) :: put rest name x

def ofPairs (pairs : List (Text × α)) : Assignment α :=
  pairs.foldl (fun a p => a.put p.1 p.2) []

def names (a : Assignment α) : List Text := a.map Prod.fst

@[simp] theorem get?_nil (name : Text) : get? ([] : Assignment α) name = none := rfl

theorem get?_cons (n name : Text) (x : α) (a : Assignment α) :
    get? ((n, x) :: a) name = if name = n then some x else get? a name := by
  unfold get?
  rw [List.lookup_cons]
  by_cases h : name = n
  · rw [if_pos h, beq_iff_eq.mpr h]
  · rw [if_neg h, beq_eq_false_iff_ne.mpr h]

theorem get?_put (a : Assignment α) (n name : Text) (x : α) :
    get? (put a n x) name = if name = n then some x else get? a name := by
  induction a with
  | nil => simp [put, get?_cons]
  | cons p rest ih =>
    obtain ⟨m, y⟩ := p
    unfold put
    by_cases hm : m = n
    · subst hm
      simp only [if_pos, get?_cons]
      by_cases hn : name = m <;> simp [hn]
    · rw [if_neg hm, get?_cons, get?_cons, ih]
      by_cases hn : name = m
      · subst hn; simp [hm]
      · simp [hn]

theorem get?_eq_none_iff {a : Assignment α} {name : Text} : get? a name = none ↔ name ∉ names a := by
  rw [get?, List.lookup_eq_none_iff, names, List.mem_map]
  constructor
  · rintro h ⟨p, hp, rfl⟩
    exact absurd (beq_self_eq_true p.1) (by simpa using h p hp)
  · intro h p hp
    simpa using fun e => h ⟨p, hp, e.symm⟩

theorem mem_of_get?_eq_some {a : Assignment α} {name : Text} {x : α} (h : get? a name = some x) :
    (name, x) ∈ a := by
  induction a with
  | nil => cases h
  | cons p rest ih =>
    obtain ⟨n, y⟩ := p
    rw [get?_cons] at h
    split at h
    · rename_i e
      rw [e, Option.some.inj h]
      exact List.mem_cons_self
    · exact List.mem_cons_of_mem _ (ih h)

/-- Where no name comes twice, every pair is found. -/
theorem get?_eq_some_of_mem {a : Assignment α} (ha : (names a).Nodup) {name : Text} {x : α}
    (h : (name, x) ∈ a) : get? a name = some x := by
  induction a with
  | nil => cases h
  | cons p rest ih =>
    obtain ⟨n, y⟩ := p
    rw [names, List.map_cons, List.nodup_cons] at ha
    rw [get?_cons]
    rcases List.mem_cons.1 h with e | hr
    · cases e
      exact if_pos rfl
    · have hne : name ≠ n := fun e => ha.1 (List.mem_map.2 ⟨_, hr, e⟩)
      rw [if_neg hne]
      exact ih ha.2 hr

end Assignment

end VirtualChannels
