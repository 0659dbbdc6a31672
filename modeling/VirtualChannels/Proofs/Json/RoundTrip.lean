import VirtualChannels.Proofs.Json.Readers

/-
  Reading what was written. A value that is written, on one line or on many, is read as what can
  be kept of it (`parse_write`): a number that is not finite turns into a null, a zero loses its
  sign, and of several fields of one name the last one counts.
-/

namespace VirtualChannels.Json

namespace Value

mutual

/-- What is left of a value when it is written and read again. -/
def kept : Value → Value
  | .null => .null
  | .bool b => .bool b
  | .number x => if Number.isFinite x then .number (Number.withoutZeroSign x) else .null
  | .text t => .text t
  | .array items => .array (keptItems items)
  | .object fields => .object (Assignment.ofPairs (keptFields fields))

def keptItems : List Value → List Value
  | [] => []
  | v :: rest => kept v :: keptItems rest

def keptFields : List (Text × Value) → List (Text × Value)
  | [] => []
  | (name, v) :: rest => (name, kept v) :: keptFields rest

end

/-- However deep a value stands and whatever follows it, it is read as what is kept of it. -/
def ReadsBack (indent : Nat) (v : Value) : Prop :=
  ∀ (depth : Nat) (b rest : Text), Blanks b → Ends rest →
    Gives (readValue (b ++ (v.write indent depth ++ rest))) v.kept rest

end Value

open Value (ReadsBack)

/-! ## What stands between values -/

theorem blanks_lineStart (indent depth : Nat) : Blanks (lineStart indent depth) := by
  unfold lineStart
  split
  · exact fun _ h => nomatch h
  · intro u hu
    rcases List.mem_cons.1 hu with rfl | hu
    · decide
    · rw [List.eq_of_mem_replicate hu]
      decide

theorem blanks_afterColon (indent : Nat) : Blanks (afterColon indent) := by
  unfold afterColon
  split
  · exact fun _ h => nomatch h
  · intro u hu
    rw [List.mem_singleton.1 hu]
    decide

theorem isPart_of_isBlank {u : CodeUnit} (h : isBlank u = true) : Numeral.isPart u = false := by
  simp only [isBlank, Bool.or_eq_true, beq_iff_eq] at h
  rcases h with ((rfl | rfl) | rfl) | rfl <;> decide

theorem ends_cons {u : CodeUnit} (hu : Numeral.isPart u = false) (rest : Text) :
    Ends (u :: rest) := by
  intro v hv
  cases hv
  exact hu

theorem ends_blanks {b : Text} (hb : Blanks b) {u : CodeUnit} (hu : Numeral.isPart u = false)
    (rest : Text) : Ends (b ++ u :: rest) := by
  cases b with
  | nil => exact ends_cons hu rest
  | cons w b => exact ends_cons (isPart_of_isBlank (hb w List.mem_cons_self)) _

theorem ends_nil : Ends [] := fun _ h => nomatch h

/-! ## Scalars -/

section
variable {t rest : Text} {u : CodeUnit}

theorem readValue_eq_readScalar (h : skipBlanks t = u :: rest) (hbracket : u ≠ openBracket)
    (hbrace : u ≠ openBrace) (hquote : u ≠ quotationMark) : readValue t = readScalar t := by
  rw [readValue.eq_def, expect_other h hbracket]
  dsimp only
  rw [expect_other h hbrace]
  dsimp only
  rw [expect_other h hquote]

theorem readScalar_null (h : skipBlanks t = Text.ofString "null" ++ rest) :
    Gives (readScalar t) .null rest := by
  obtain ⟨hl, hword⟩ := expectWord_same (by decide) h
  rw [readScalar, hword]
  exact ⟨hl, rfl⟩

theorem readScalar_true (h : skipBlanks t = Text.ofString "true" ++ rest) :
    Gives (readScalar t) (.bool true) rest := by
  obtain ⟨hl, hword⟩ := expectWord_same (by decide) h
  rw [readScalar, expectWord_other (by decide) h (by decide)]
  dsimp only
  rw [hword]
  exact ⟨hl, rfl⟩

theorem readScalar_false (h : skipBlanks t = Text.ofString "false" ++ rest) :
    Gives (readScalar t) (.bool false) rest := by
  obtain ⟨hl, hword⟩ := expectWord_same (by decide) h
  rw [readScalar, expectWord_other (by decide) h (by decide)]
  dsimp only
  rw [expectWord_other (by decide) h (by decide)]
  dsimp only
  rw [hword]
  exact ⟨hl, rfl⟩

theorem readScalar_number {x : Float} (h : skipBlanks t = u :: rest) (hu : startsNumber u = true)
    {rest' : Text} (hx : Gives (readNumber t) x rest') :
    Gives (readScalar t) (.number x) rest' := by
  obtain ⟨hl, hread⟩ := hx
  have hne (word : Text) (hw : word.head?.any startsNumber = false) : word.head? ≠ some u := by
    intro e
    rw [e, Option.any_some, hu] at hw
    cases hw
  rw [readScalar, expectWord_other (by decide) h (hne _ (by decide))]
  dsimp only
  rw [expectWord_other (by decide) h (hne _ (by decide))]
  dsimp only
  rw [expectWord_other (by decide) h (hne _ (by decide))]
  dsimp only
  rw [h, List.head?_cons, Option.any_some, if_pos hu, hread]
  exact ⟨hl, rfl⟩

end

theorem readsBack_null (indent : Nat) : ReadsBack indent .null := by
  intro depth b rest hb hrest
  have hskip : skipBlanks (b ++ (Text.ofString "null" ++ rest)) = Text.ofString "null" ++ rest :=
    skipBlanks_append hb (by decide) _
  show Gives (readValue (b ++ (Text.ofString "null" ++ rest))) .null rest
  rw [readValue_eq_readScalar hskip (by decide) (by decide) (by decide)]
  exact readScalar_null hskip

theorem readsBack_bool (indent : Nat) (x : Bool) : ReadsBack indent (.bool x) := by
  intro depth b rest hb hrest
  cases x with
  | true =>
    have hskip : skipBlanks (b ++ (Text.ofString "true" ++ rest)) = Text.ofString "true" ++ rest :=
      skipBlanks_append hb (by decide) _
    show Gives (readValue (b ++ (Text.ofString "true" ++ rest))) (.bool true) rest
    rw [readValue_eq_readScalar hskip (by decide) (by decide) (by decide)]
    exact readScalar_true hskip
  | false =>
    have hskip : skipBlanks (b ++ (Text.ofString "false" ++ rest)) =
        Text.ofString "false" ++ rest := skipBlanks_append hb (by decide) _
    show Gives (readValue (b ++ (Text.ofString "false" ++ rest))) (.bool false) rest
    rw [readValue_eq_readScalar hskip (by decide) (by decide) (by decide)]
    exact readScalar_false hskip

theorem readsBack_number (indent : Nat) (x : Float) : ReadsBack indent (.number x) := by
  intro depth b rest hb hrest
  cases hx : Number.isFinite x with
  | false =>
    have hnull := readsBack_null indent depth b rest hb hrest
    have hwrite : (Value.number x).write indent depth = Value.null.write indent depth := by
      simp only [Value.write, writeNumber, hx, Bool.false_eq_true, if_false]
    have hkept : (Value.number x).kept = .null := by
      simp only [Value.kept, hx, Bool.false_eq_true, if_false]
    rw [hwrite, hkept]
    exact hnull
  | true =>
    obtain ⟨d, hd, hfloat⟩ := Number.exists_denotes_text hx
    have hread := readNumber_denotes hb hd hrest
    have hwrite : (Value.number x).write indent depth = Number.text x := by
      simp only [Value.write, writeNumber, hx, if_true]
    have hkept : (Value.number x).kept = .number d.toFloat := by
      simp only [Value.kept, hx, if_true, hfloat]
    obtain ⟨p, htext, -⟩ := hd
    obtain ⟨u, more, hcons, hu⟩ := exists_text_cons p
    rw [htext] at hcons
    have hskip : skipBlanks (b ++ (Number.text x ++ rest)) = u :: (more ++ rest) := by
      rw [hcons]
      exact skipBlanks_append hb (isBlank_of_startsNumber hu) _
    have hne {w : CodeUnit} (hw : startsNumber w = false) : u ≠ w := by
      intro e
      rw [← e, hu] at hw
      cases hw
    rw [hwrite, hkept,
      readValue_eq_readScalar hskip (hne (by decide)) (hne (by decide)) (hne (by decide))]
    exact readScalar_number hskip hu hread

theorem readsBack_text (indent : Nat) (t : Text) : ReadsBack indent (.text t) := by
  intro depth b rest hb hrest
  have hwrite : (Value.text t).write indent depth ++ rest =
      quotationMark :: (writeUnits t ++ quotationMark :: rest) := by
    simp only [Value.write, writeText, List.cons_append, List.append_assoc, List.nil_append]
  rw [hwrite]
  have hskip : skipBlanks (b ++ quotationMark :: (writeUnits t ++ quotationMark :: rest)) =
      quotationMark :: (writeUnits t ++ quotationMark :: rest) :=
    skipBlanks_append hb (by decide) _
  obtain ⟨hl, hopen⟩ := expect_same hskip
  obtain ⟨hl', hread⟩ := readText_writeUnits t rest
  rw [readValue.eq_def, expect_other hskip (by decide)]
  dsimp only
  rw [expect_other hskip (by decide)]
  dsimp only
  rw [hopen]
  dsimp only
  rw [hread]
  exact ⟨_, rfl⟩

/-! ## Arrays and objects -/

section
variable {indent depth : Nat} {b last rest : Text}

/-- The items of an array that has some. -/
theorem readItems_write {v : Value} {items : List Value} (hv : ReadsBack indent v)
    (hitems : ∀ w ∈ items, ReadsBack indent w) (hb : Blanks b) (hlast : Blanks last)
    (rest : Text) :
    Gives (readItems (b ++ (v.write indent depth ++ (Value.writeItems indent depth items
      ++ (last ++ closeBracket :: rest))))) (v.kept :: Value.keptItems items) rest := by
  induction items generalizing b v with
  | nil =>
    have hclose := skipBlanks_append hlast (u := closeBracket) (by decide) rest
    obtain ⟨hl, hread⟩ := hv depth b (last ++ closeBracket :: rest) hb
      (ends_blanks hlast (by decide) rest)
    obtain ⟨hl', hexpect⟩ := expect_same hclose
    have htext : Value.writeItems indent depth [] ++ (last ++ closeBracket :: rest)
        = last ++ closeBracket :: rest := by rw [Value.writeItems, List.nil_append]
    rw [htext, readItems.eq_def, hread]
    dsimp only
    rw [expect_other hclose (by decide)]
    dsimp only
    rw [hexpect]
    exact ⟨_, rfl⟩
  | cons w items ih =>
    obtain ⟨hl, hnext⟩ := ih (hitems w List.mem_cons_self)
      (fun w' hw' => hitems w' (List.mem_cons_of_mem w hw')) (blanks_lineStart indent depth)
    have htext : Value.writeItems indent depth (w :: items) ++ (last ++ closeBracket :: rest)
        = comma :: (lineStart indent depth ++ (w.write indent depth
          ++ (Value.writeItems indent depth items ++ (last ++ closeBracket :: rest)))) := by
      simp only [Value.writeItems, List.cons_append, List.append_assoc]
    rw [htext]
    generalize lineStart indent depth ++ (w.write indent depth
      ++ (Value.writeItems indent depth items ++ (last ++ closeBracket :: rest))) = next at *
    obtain ⟨hl', hread⟩ := hv depth b (comma :: next) hb (ends_cons (by decide) next)
    obtain ⟨hl'', hexpect⟩ := expect_same (skipBlanks_cons (u := comma) (by decide) next)
    rw [readItems.eq_def, hread]
    dsimp only
    rw [hexpect]
    dsimp only
    rw [hnext]
    exact ⟨_, rfl⟩

/-- A field, and more fields after a comma or the end of the object. -/
theorem readFields_field {name tail : Text} {v : Value} {fields : List (Text × Value)}
    (hv : ReadsBack indent v) (hb : Blanks b) (htail : Ends tail)
    (hmore : (∃ next, skipBlanks tail = comma :: next ∧
        Gives (readFields .noName next) fields rest) ∨
      fields = [] ∧ skipBlanks tail = closeBrace :: rest) (cause : Cause) :
    Gives (readFields cause (b ++ quotationMark :: (writeUnits name ++ quotationMark :: colon ::
      (afterColon indent ++ (v.write indent depth ++ tail))))) ((name, v.kept) :: fields) rest := by
  obtain ⟨hl₁, hquote⟩ := expect_same (skipBlanks_append hb (u := quotationMark) (by decide)
    (writeUnits name ++ quotationMark :: colon ::
      (afterColon indent ++ (v.write indent depth ++ tail))))
  obtain ⟨hl₂, hname⟩ := readText_writeUnits name (colon ::
    (afterColon indent ++ (v.write indent depth ++ tail)))
  obtain ⟨hl₃, hcolon⟩ := expect_same (skipBlanks_cons (u := colon) (by decide)
    (afterColon indent ++ (v.write indent depth ++ tail)))
  obtain ⟨hl₄, hvalue⟩ := hv depth (afterColon indent) tail (blanks_afterColon indent) htail
  rw [readFields.eq_def, hquote]
  dsimp only
  rw [hname]
  dsimp only
  rw [hcolon]
  dsimp only
  rw [hvalue]
  dsimp only
  rcases hmore with ⟨next, hnext, hl₅, hfields⟩ | ⟨rfl, hclose⟩
  · obtain ⟨hl₆, hcomma⟩ := expect_same hnext
    rw [hcomma]
    dsimp only
    rw [hfields]
    exact ⟨_, rfl⟩
  · obtain ⟨hl₅, hend⟩ := expect_same hclose
    rw [expect_other hclose (by decide)]
    dsimp only
    rw [hend]
    exact ⟨_, rfl⟩

/-- The fields of an object that has some, whatever is said where there are none. -/
theorem readFields_write (name : Text) {v : Value} {fields : List (Text × Value)}
    (hv : ReadsBack indent v) (hfields : ∀ f ∈ fields, ReadsBack indent f.2) (hb : Blanks b)
    (hlast : Blanks last) (cause : Cause) (rest : Text) :
    Gives (readFields cause (b ++ quotationMark :: (writeUnits name ++ quotationMark :: colon ::
        (afterColon indent ++ (v.write indent depth ++ (Value.writeFields indent depth fields
        ++ (last ++ closeBrace :: rest)))))))
      ((name, v.kept) :: Value.keptFields fields) rest := by
  induction fields generalizing b name v cause with
  | nil =>
    have htext : Value.writeFields indent depth [] ++ (last ++ closeBrace :: rest)
        = last ++ closeBrace :: rest := by rw [Value.writeFields, List.nil_append]
    rw [htext]
    exact readFields_field hv hb (ends_blanks hlast (by decide) rest)
      (Or.inr ⟨rfl, skipBlanks_append hlast (by decide) rest⟩) cause
  | cons f fields ih =>
    obtain ⟨name', w⟩ := f
    have htext : Value.writeFields indent depth ((name', w) :: fields)
          ++ (last ++ closeBrace :: rest)
        = comma :: (lineStart indent depth ++ quotationMark :: (writeUnits name' ++ quotationMark
          :: colon :: (afterColon indent ++ (w.write indent depth
          ++ (Value.writeFields indent depth fields ++ (last ++ closeBrace :: rest)))))) := by
      simp only [Value.writeFields, writeText, List.cons_append, List.append_assoc,
        List.nil_append]
    rw [htext]
    exact readFields_field hv hb (ends_cons (by decide) _)
      (Or.inl ⟨_, skipBlanks_cons (by decide) _, ih name' (hfields _ List.mem_cons_self)
        (fun f hf => hfields f (List.mem_cons_of_mem _ hf)) (blanks_lineStart indent depth) _⟩)
      cause

end

/-- A value starts with no bracket that closes an array. -/
theorem exists_write_cons (indent depth : Nat) (v : Value) :
    ∃ u more, v.write indent depth = u :: more ∧ isBlank u = false ∧ u ≠ closeBracket := by
  cases v with
  | null => exact ⟨0x6E, _, by rw [Value.write]; rfl, by decide⟩
  | bool x =>
    cases x with
    | true => exact ⟨0x74, _, by rw [Value.write]; rfl, by decide⟩
    | false => exact ⟨0x66, _, by rw [Value.write]; rfl, by decide⟩
  | number x =>
    rw [Value.write, writeNumber]
    split
    · rename_i hx
      obtain ⟨d, ⟨p, htext, -⟩, -⟩ := Number.exists_denotes_text hx
      obtain ⟨u, more, hcons, hu⟩ := exists_text_cons p
      refine ⟨u, more, by rw [← htext, hcons], isBlank_of_startsNumber hu, fun e => ?_⟩
      rw [e] at hu
      exact absurd hu (by decide)
    · exact ⟨0x6E, _, rfl, by decide⟩
  | text t => exact ⟨quotationMark, _, by rw [Value.write, writeText], by decide⟩
  | array items =>
    cases items with
    | nil => exact ⟨openBracket, _, by rw [Value.write], by decide⟩
    | cons v rest => exact ⟨openBracket, _, by rw [Value.write], by decide⟩
  | object fields =>
    cases fields with
    | nil => exact ⟨openBrace, _, by rw [Value.write], by decide⟩
    | cons f rest => exact ⟨openBrace, _, by rw [Value.write], by decide⟩

theorem readsBack_array {indent : Nat} {items : List Value}
    (hitems : ∀ v ∈ items, ReadsBack indent v) : ReadsBack indent (.array items) := by
  intro depth b rest hb hrest
  cases items with
  | nil =>
    have hwrite : (Value.array []).write indent depth ++ rest =
        openBracket :: closeBracket :: rest := by rw [Value.write]; rfl
    obtain ⟨hl, hopen⟩ := expect_same (skipBlanks_append hb (u := openBracket) (by decide)
      (closeBracket :: rest))
    obtain ⟨hl', hclose⟩ := expect_same (skipBlanks_cons (u := closeBracket) (by decide) rest)
    rw [hwrite, readValue.eq_def, hopen]
    dsimp only
    rw [hclose]
    exact ⟨_, rfl⟩
  | cons v items =>
    have hwrite : (Value.array (v :: items)).write indent depth ++ rest =
        openBracket :: (lineStart indent (depth + 1) ++ (v.write indent (depth + 1)
          ++ (Value.writeItems indent (depth + 1) items
          ++ (lineStart indent depth ++ closeBracket :: rest)))) := by
      simp only [Value.write, List.cons_append, List.append_assoc, List.nil_append]
    obtain ⟨hl, hread⟩ := readItems_write (hitems v List.mem_cons_self)
      (fun w hw => hitems w (List.mem_cons_of_mem v hw)) (blanks_lineStart indent (depth + 1))
      (blanks_lineStart indent depth) rest
    obtain ⟨u, more, hcons, hblank, hu⟩ := exists_write_cons indent (depth + 1) v
    have hfirst : skipBlanks (lineStart indent (depth + 1) ++ (v.write indent (depth + 1)
        ++ (Value.writeItems indent (depth + 1) items
        ++ (lineStart indent depth ++ closeBracket :: rest)))) = u :: (more
        ++ (Value.writeItems indent (depth + 1) items
        ++ (lineStart indent depth ++ closeBracket :: rest))) := by
      rw [hcons]
      exact skipBlanks_append (blanks_lineStart indent (depth + 1)) hblank _
    rw [hwrite]
    generalize lineStart indent (depth + 1) ++ (v.write indent (depth + 1)
      ++ (Value.writeItems indent (depth + 1) items
      ++ (lineStart indent depth ++ closeBracket :: rest))) = inside at *
    obtain ⟨hl', hopen⟩ :=
      expect_same (skipBlanks_append hb (u := openBracket) (by decide) inside)
    rw [readValue.eq_def, hopen]
    dsimp only
    rw [expect_other hfirst hu]
    dsimp only
    rw [hread]
    exact ⟨_, rfl⟩

theorem readsBack_object {indent : Nat} {fields : List (Text × Value)}
    (hfields : ∀ f ∈ fields, ReadsBack indent f.2) : ReadsBack indent (.object fields) := by
  intro depth b rest hb hrest
  cases fields with
  | nil =>
    have hwrite : (Value.object []).write indent depth ++ rest =
        openBrace :: closeBrace :: rest := by rw [Value.write]; rfl
    have hskip := skipBlanks_append hb (u := openBrace) (by decide) (closeBrace :: rest)
    obtain ⟨hl, hopen⟩ := expect_same hskip
    obtain ⟨hl', hclose⟩ := expect_same (skipBlanks_cons (u := closeBrace) (by decide) rest)
    rw [hwrite, readValue.eq_def, expect_other hskip (by decide)]
    dsimp only
    rw [hopen]
    dsimp only
    rw [hclose]
    exact ⟨_, rfl⟩
  | cons f fields =>
    obtain ⟨name, v⟩ := f
    have hwrite : (Value.object ((name, v) :: fields)).write indent depth ++ rest =
        openBrace :: (lineStart indent (depth + 1) ++ quotationMark :: (writeUnits name
          ++ quotationMark :: colon :: (afterColon indent ++ (v.write indent (depth + 1)
          ++ (Value.writeFields indent (depth + 1) fields
          ++ (lineStart indent depth ++ closeBrace :: rest)))))) := by
      simp only [Value.write, writeText, List.cons_append, List.append_assoc, List.nil_append]
    obtain ⟨hl, hread⟩ := readFields_write name (hfields _ List.mem_cons_self)
      (fun f hf => hfields f (List.mem_cons_of_mem _ hf)) (blanks_lineStart indent (depth + 1))
      (blanks_lineStart indent depth) .noNameOrBrace rest
    have hfirst := skipBlanks_append (blanks_lineStart indent (depth + 1)) (u := quotationMark)
      (by decide) (writeUnits name ++ quotationMark :: colon :: (afterColon indent
        ++ (v.write indent (depth + 1) ++ (Value.writeFields indent (depth + 1) fields
        ++ (lineStart indent depth ++ closeBrace :: rest)))))
    rw [hwrite]
    generalize lineStart indent (depth + 1) ++ quotationMark :: (writeUnits name
      ++ quotationMark :: colon :: (afterColon indent ++ (v.write indent (depth + 1)
      ++ (Value.writeFields indent (depth + 1) fields
      ++ (lineStart indent depth ++ closeBrace :: rest))))) = inside at *
    have hskip := skipBlanks_append hb (u := openBrace) (by decide) inside
    obtain ⟨hl', hopen⟩ := expect_same hskip
    rw [readValue.eq_def, expect_other hskip (by decide)]
    dsimp only
    rw [hopen]
    dsimp only
    rw [expect_other hfirst (by decide)]
    dsimp only
    rw [hread]
    exact ⟨_, rfl⟩

/-! ## Values -/

mutual

theorem readsBack (indent : Nat) : ∀ v : Value, ReadsBack indent v
  | .null => readsBack_null indent
  | .bool x => readsBack_bool indent x
  | .number x => readsBack_number indent x
  | .text t => readsBack_text indent t
  | .array items => readsBack_array (readsBack_items indent items)
  | .object fields => readsBack_object (readsBack_fields indent fields)

theorem readsBack_items (indent : Nat) : ∀ items : List Value, ∀ v ∈ items, ReadsBack indent v
  | [] => fun _ h => nomatch h
  | w :: rest => List.forall_mem_cons.2 ⟨readsBack indent w, readsBack_items indent rest⟩

theorem readsBack_fields (indent : Nat) :
    ∀ fields : List (Text × Value), ∀ f ∈ fields, ReadsBack indent f.2
  | [] => fun _ h => nomatch h
  | (_, w) :: rest => List.forall_mem_cons.2 ⟨readsBack indent w, readsBack_fields indent rest⟩

end

/-- A value that was written is read as what is kept of it. -/
theorem parse_write (indent : Nat) (v : Value) : parse (v.write indent 0) = .ok v.kept := by
  have hgives := readsBack indent v 0 [] [] (fun _ h => nomatch h) ends_nil
  rw [List.nil_append, List.append_nil] at hgives
  obtain ⟨hl, hread⟩ := hgives
  unfold parse
  rw [hread]
  rfl

end VirtualChannels.Json
