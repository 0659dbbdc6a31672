import VirtualChannels.Proofs.Formula.Noting
import VirtualChannels.Proofs.Formula.Parsing
import VirtualChannels.Proofs.Formula.Values

/-
  What decides whether an expression has a value. A fault is a name that the scope and the constants
  leave without a value, or a call of no function. The nodes of an expression come from left to
  right, each before its own operands, and the evaluation stops at the first one with a fault
  (`Expr.faultOf_eval`). A parsed expression only calls functions (`calls_of_parse`), so what a
  compiled one lacks is among its noted names.
-/

namespace VirtualChannels.Formula

/-- The error of an outcome, if it is one. -/
def faultOf {α : Type} : Except EvalError α → Option EvalError
  | .error err => some err
  | .ok _ => none

section FaultOf

variable {α : Type} {r : Except EvalError α}

theorem faultOf_eq_none_iff : faultOf r = none ↔ ∃ x, r = .ok x := by
  cases r with
  | error err => simp [faultOf]
  | ok x => simp [faultOf]

theorem faultOf_eq_some_iff {err : EvalError} : faultOf r = some err ↔ r = .error err := by
  cases r with
  | error err => simp [faultOf]
  | ok x => simp [faultOf]

end FaultOf

/-- A name has no value if it is neither bound nor that of a constant. -/
theorem resolve_isNone (s : Scope) (n : Text) :
    (resolve s n).isNone = ((s n).isNone && (Constant.find? n).isNone) := by
  unfold resolve
  cases s n with
  | some x => rfl
  | none => simp

theorem resolve_isSome_iff (s : Scope) (n : Text) :
    (resolve s n).isSome = true ↔ (s n).isSome = true ∨ (Constant.find? n).isSome = true := by
  rw [← Option.not_isNone, resolve_isNone, Bool.not_and, Option.not_isNone, Option.not_isNone,
    Bool.or_eq_true]

namespace Expr

mutual

/-- The nodes from left to right, each one before those it is made of. -/
def nodes : Expr → List Expr
  | number x => [number x]
  | name n => [name n]
  | group e => group e :: nodes e
  | sign s e => sign s e :: nodes e
  | binary op left right => binary op left right :: (nodes left ++ nodes right)
  | call function args => call function args :: nodesAll args

def nodesAll : List Expr → List Expr
  | [] => []
  | e :: es => nodes e ++ nodesAll es

end

/-- The name that a node is. -/
def name? : Expr → Option Text
  | name n => some n
  | _ => none

/-- What is wrong with a node, apart from those it is made of. -/
def fault? (s : Scope) : Expr → Option EvalError
  | name n => if (resolve s n).isSome then none else some (.unknownName n)
  | call function _ =>
    if (Builtin.find? function).isSome then none else some (.unknownFunction function)
  | _ => none

/-- If the node is a call, it is one of a function. -/
def CallsFunction (e : Expr) : Prop :=
  ∀ function args, e = call function args → (Builtin.find? function).isSome = true

theorem fault?_eq_none_iff (s : Scope) (e : Expr) :
    e.fault? s = none ↔ e.CallsFunction ∧ ∀ n, e = name n → (resolve s n).isSome = true := by
  cases e with
  | name n => simp [fault?, CallsFunction, Option.isSome_iff_ne_none]
  | call function args => simp [fault?, CallsFunction, Option.isSome_iff_ne_none]
  | number | group | sign | binary => simp [fault?, CallsFunction]

mutual

/-- The evaluation stops at the first node with a fault. -/
theorem faultOf_eval (s : Scope) : ∀ e : Expr, faultOf (e.eval s) = e.nodes.findSome? (fault? s)
  | number x => rfl
  | name n => by
    simp only [eval, nodes, List.findSome?_cons, List.findSome?_nil, fault?]
    cases resolve s n with
    | none => rfl
    | some x => rfl
  | group e => by
    simp only [eval, nodes, List.findSome?_cons, fault?]
    exact faultOf_eval s e
  | sign p e => by
    simp only [eval, nodes, List.findSome?_cons, fault?]
    rw [← faultOf_eval s e]
    cases e.eval s with
    | error err => rfl
    | ok x => rfl
  | binary op left right => by
    simp only [eval, nodes, List.findSome?_cons, fault?, List.findSome?_append]
    rw [← faultOf_eval s left, ← faultOf_eval s right]
    cases left.eval s with
    | error err => rfl
    | ok x =>
      cases right.eval s with
      | error err => rfl
      | ok y => rfl
  | call function args => by
    simp only [eval, nodes, List.findSome?_cons, fault?]
    cases Builtin.find? function with
    | none => rfl
    | some f =>
      dsimp only [Option.isSome_some, if_true]
      rw [← faultOf_evalAll s args]
      cases evalAll s args with
      | error err => rfl
      | ok xs => rfl

theorem faultOf_evalAll (s : Scope) :
    ∀ es : List Expr, faultOf (evalAll s es) = (nodesAll es).findSome? (fault? s)
  | [] => rfl
  | e :: es => by
    simp only [evalAll, nodesAll, List.findSome?_append]
    rw [← faultOf_eval s e, ← faultOf_evalAll s es]
    cases e.eval s with
    | error err => rfl
    | ok x =>
      cases evalAll s es with
      | error err => rfl
      | ok xs => rfl

end

theorem eval_eq_error_iff (s : Scope) (e : Expr) (err : EvalError) :
    e.eval s = .error err ↔ e.nodes.findSome? (fault? s) = some err := by
  rw [← faultOf_eval, faultOf_eq_some_iff]

theorem eval_eq_ok_iff (s : Scope) (e : Expr) :
    (∃ x, e.eval s = .ok x) ↔
      (∀ node ∈ e.nodes, node.CallsFunction) ∧
      ∀ n, name n ∈ e.nodes → (resolve s n).isSome = true := by
  rw [← faultOf_eq_none_iff, faultOf_eval, List.findSome?_eq_none_iff]
  constructor
  · intro h
    exact ⟨fun node hm => ((fault?_eq_none_iff s node).1 (h node hm)).1,
      fun n hm => ((fault?_eq_none_iff s _).1 (h _ hm)).2 n rfl⟩
  · rintro ⟨hcalls, hnames⟩ node hm
    refine (fault?_eq_none_iff s node).2 ⟨hcalls node hm, ?_⟩
    rintro n rfl
    exact hnames n hm

/-! ## The names among the nodes -/

mutual

theorem names_eq_filterMap : ∀ e : Expr, e.names = e.nodes.filterMap name?
  | number x => rfl
  | name n => rfl
  | group e => names_eq_filterMap e
  | sign p e => names_eq_filterMap e
  | binary op left right => by
    rw [names, nodes, names_eq_filterMap left, names_eq_filterMap right, ← List.filterMap_append]
    rfl
  | call function args => namesAll_eq_filterMap args

theorem namesAll_eq_filterMap : ∀ es : List Expr, namesAll es = (nodesAll es).filterMap name?
  | [] => rfl
  | e :: es => by
    rw [namesAll, nodesAll, names_eq_filterMap e, namesAll_eq_filterMap es, ← List.filterMap_append]

end

theorem mem_names_iff {e : Expr} {n : Text} : n ∈ e.names ↔ name n ∈ e.nodes := by
  rw [names_eq_filterMap, List.mem_filterMap]
  constructor
  · rintro ⟨e', hm, h⟩
    cases e' with
    | name m =>
      cases h
      exact hm
    | number | group | sign | binary | call => cases h
  · intro hm
    exact ⟨_, hm, rfl⟩

mutual

/-- The value depends on the names of the expression alone. -/
theorem eval_congr {s s' : Scope} :
    ∀ e : Expr, (∀ n ∈ e.names, s n = s' n) → e.eval s = e.eval s'
  | number x, _ => rfl
  | name n, h => by
    rw [eval, eval, resolve, resolve, h n List.mem_cons_self]
  | group e, h => eval_congr e h
  | sign p e, h => by
    rw [eval, eval, eval_congr e h]
  | binary op left right, h => by
    rw [names, List.forall_mem_append] at h
    rw [eval, eval, eval_congr left h.1, eval_congr right h.2]
  | call function args, h => by
    rw [eval, eval, evalAll_congr args h]

theorem evalAll_congr {s s' : Scope} :
    ∀ es : List Expr, (∀ n ∈ namesAll es, s n = s' n) → evalAll s es = evalAll s' es
  | [], _ => rfl
  | e :: es, h => by
    rw [namesAll, List.forall_mem_append] at h
    rw [evalAll, evalAll, eval_congr e h.1, evalAll_congr es h.2]

end

end Expr

/-! ## Compiled texts -/

/-- All calls in a phrase are of functions, if they are in what is put in front of it. -/
def CallsInside : (c : Category) → c.Tree → Prop
  | .sums, t | .products, t =>
    ∀ e, (∀ node ∈ e.nodes, node.CallsFunction) → ∀ node ∈ (t e).nodes, node.CallsFunction
  | .arguments, es => ∀ node ∈ Expr.nodesAll es, node.CallsFunction
  | .expression, e | .term, e | .unary, e | .power, e | .primary, e =>
    ∀ node ∈ e.nodes, node.CallsFunction

theorem callsFunction_binary {op : Operator} {left right : Expr}
    (hl : ∀ node ∈ left.nodes, node.CallsFunction)
    (hr : ∀ node ∈ right.nodes, node.CallsFunction) :
    ∀ node ∈ (Expr.binary op left right).nodes, node.CallsFunction := by
  rw [Expr.nodes, List.forall_mem_cons, List.forall_mem_append]
  refine ⟨?_, hl, hr⟩
  rintro function args ⟨⟩

/-- An admissible derivation only calls functions. -/
theorem Derivation.callsInside {c : Category} (d : Derivation Empty c) (hd : d.Admissible) :
    CallsInside c (d.tree Empty.elim) := by
  induction d with
  | expression first more ihf ihm => exact ihm hd.2 _ (ihf hd.1)
  | noSum => exact fun _ h => h
  | sum p right more ihr ihm =>
    exact fun left hl => ihm hd.2 _ (callsFunction_binary hl (ihr hd.1))
  | term first more ihf ihm => exact ihm hd.2 _ (ihf hd.1)
  | noProduct => exact fun _ h => h
  | product f right more ihr ihm =>
    exact fun left hl => ihm hd.2 _ (callsFunction_binary hl (ihr hd.1))
  | signed p inner ih =>
    refine List.forall_mem_cons.2 ⟨?_, ih hd⟩
    rintro function args ⟨⟩
  | unsigned inner ih => exact ih hd
  | base b ih => exact ih hd
  | raised b exponent ihb ihe => exact callsFunction_binary (ihb hd.1) (ihe hd.2)
  | number x =>
    refine List.forall_mem_singleton.2 ?_
    rintro function args ⟨⟩
  | name n =>
    refine List.forall_mem_singleton.2 ?_
    rintro function args ⟨⟩
  | operand w => exact w.elim
  | group inner ih =>
    refine List.forall_mem_cons.2 ⟨?_, ih hd⟩
    rintro function args ⟨⟩
  | call n args ih =>
    obtain ⟨⟨f, hf, -⟩, hargs⟩ := hd
    refine List.forall_mem_cons.2 ⟨?_, ih hargs⟩
    rintro function args ⟨⟩
    rw [Builtin.find?_lowerAscii, hf]
    rfl
  | lastArgument last ih =>
    show ∀ node ∈ Expr.nodes _ ++ [], _
    rw [List.append_nil]
    exact ih hd
  | argument first more ihf ihm => exact List.forall_mem_append.2 ⟨ihf hd.1, ihm hd.2⟩

/-- What a text is parsed as is the tree of an admissible derivation. -/
theorem exists_derivation_of_parse {t : Text} {e : Expr} (h : parse t = .ok e) :
    ∃ d : Derivation Empty .expression, d.Admissible ∧ d.tree Empty.elim = e := by
  cases ht : tokenize t with
  | error err =>
    rw [parse_eq] at h
    rw [ht] at h
    split at h
    · cases h
    · cases h
  | ok ts =>
    obtain ⟨ws, hws, hfin⟩ := spells_of_tokenize ht
    obtain ⟨d, -, hd, htree⟩ :=
      (parseTokens_eq_ok_iff (fun w => w.elim) hws hfin).1 ((parse_eq_ok_iff ht e).1 h)
    have hleaf : (fun w : Empty => Expr.name w.elim) = Empty.elim := funext fun w => w.elim
    exact ⟨d, hd, hleaf ▸ htree⟩

theorem callsFunction_of_parse {t : Text} {e : Expr} (h : parse t = .ok e) :
    ∀ node ∈ e.nodes, node.CallsFunction := by
  obtain ⟨d, hd, rfl⟩ := exists_derivation_of_parse h
  exact d.callsInside hd

theorem compile_eq_ok_iff {t : Text} {c : Compiled} :
    compile t = .ok c ↔ parse t = .ok c.expr ∧ c.names = c.expr.distinctNames := by
  rw [compile_eq]
  cases parse t with
  | error err => simp [Except.map]
  | ok e =>
    constructor
    · intro h
      cases h
      exact ⟨rfl, rfl⟩
    · rintro ⟨h, hnames⟩
      cases h
      show Except.ok (Compiled.mk c.expr c.expr.distinctNames) = Except.ok c
      rw [← hnames]

/-- What is found first is found at its first occurrence. -/
theorem find?_eraseDups (p : Text → Bool) (names : List Text) :
    names.eraseDups.find? p = names.find? p := by
  induction names using List.reverseRecOn with
  | nil => rfl
  | append_singleton names name ih =>
    rw [Parser.eraseDups_append_singleton, Parser.note, List.find?_append, ← ih]
    split
    · rename_i hname
      cases hfound : names.eraseDups.find? p with
      | some n => rfl
      | none =>
        have hp : ¬p name := List.find?_eq_none.1 hfound name hname
        simp [hp]
    · exact List.find?_append

/-- Where all calls are of functions, the first fault is of the first name without a value. -/
theorem findSome?_fault?_nodes {e : Expr} (h : ∀ node ∈ e.nodes, node.CallsFunction) (s : Scope) :
    e.nodes.findSome? (Expr.fault? s) =
      (e.distinctNames.find? fun n => (resolve s n).isNone).map .unknownName := by
  rw [Expr.distinctNames, find?_eraseDups, Expr.names_eq_filterMap]
  generalize e.nodes = nodes at h
  induction nodes with
  | nil => rfl
  | cons node nodes ih =>
    rw [List.forall_mem_cons] at h
    rw [List.findSome?_cons, ih h.2]
    cases node with
    | number | group | sign | binary => rfl
    | call function args =>
      have hf := h.1 function args rfl
      rw [Expr.fault?, if_pos hf]
      rfl
    | name n =>
      rw [List.filterMap_cons, Expr.fault?]
      cases hn : resolve s n with
      | none => simp [Expr.name?, hn]
      | some x => simp [Expr.name?, hn]

/-- An expression has a value exactly when it only calls functions, and each of its names is bound
or names a constant. If not, the error is that of the first node from left to right that a fault
is in, a call before its arguments. Only the bindings of its names matter. A compiled text has
noted the distinct names of its expression in order of first use. It fails exactly when one of
them has no value, with an error that names the first of these. -/
theorem eval_decided_by_names :
    (∀ (e : Expr) (s : Scope),
      ((∃ x, e.eval s = .ok x) ↔
        (∀ function args, .call function args ∈ e.nodes →
          (Builtin.find? function).isSome = true) ∧
        ∀ n, .name n ∈ e.nodes → (s n).isSome = true ∨ (Constant.find? n).isSome = true) ∧
      (∀ err, e.eval s = .error err ↔ e.nodes.findSome? (Expr.fault? s) = some err) ∧
      ∀ s' : Scope, (∀ n, .name n ∈ e.nodes → s n = s' n) → e.eval s = e.eval s') ∧
    ∀ (t : Text) (c : Compiled), compile t = .ok c →
      c.names = (c.expr.nodes.filterMap Expr.name?).eraseDups ∧
      ∀ s : Scope,
        ((∃ err, c.eval s = .error err) ↔ ∃ n ∈ c.names, s n = none ∧ Constant.find? n = none) ∧
        ∀ err, c.eval s = .error err ↔
          (c.names.find? fun n => (s n).isNone && (Constant.find? n).isNone).map .unknownName =
            some err := by
  refine ⟨fun e s => ⟨?_, e.eval_eq_error_iff s, fun s' h => ?_⟩, fun t c hc => ?_⟩
  · rw [Expr.eval_eq_ok_iff]
    simp only [resolve_isSome_iff]
    constructor
    · rintro ⟨hcalls, hnames⟩
      exact ⟨fun function args hm => hcalls _ hm function args rfl, hnames⟩
    · rintro ⟨hcalls, hnames⟩
      refine ⟨?_, hnames⟩
      rintro node hm function args rfl
      exact hcalls function args hm
  · exact e.eval_congr fun n hn => h n (Expr.mem_names_iff.1 hn)
  · obtain ⟨hparse, hnames⟩ := compile_eq_ok_iff.1 hc
    have herror : ∀ (s : Scope) err, c.eval s = .error err ↔
        (c.names.find? fun n => (s n).isNone && (Constant.find? n).isNone).map .unknownName =
          some err := by
      intro s err
      have hunresolved : (fun n => (s n).isNone && (Constant.find? n).isNone) =
          fun n => (resolve s n).isNone := funext fun n => (resolve_isNone s n).symm
      rw [hnames, hunresolved, ← findSome?_fault?_nodes (callsFunction_of_parse hparse)]
      exact c.expr.eval_eq_error_iff s err
    refine ⟨?_, fun s => ⟨?_, herror s⟩⟩
    · rw [hnames, Expr.distinctNames, Expr.names_eq_filterMap]
    · simp only [herror, Option.map_eq_some_iff]
      constructor
      · rintro ⟨err, n, hn, -⟩
        exact ⟨n, List.mem_of_find?_eq_some hn, by simpa using List.find?_some hn⟩
      · rintro ⟨n, hn, hs, hk⟩
        have hfound : (c.names.find? fun n => (s n).isNone && (Constant.find? n).isNone).isSome =
            true := List.find?_isSome.2 ⟨n, hn, by simp [hs, hk]⟩
        obtain ⟨m, hm⟩ := Option.isSome_iff_exists.1 hfound
        exact ⟨_, m, hm, rfl⟩

/-- In `RPM/max(Boost,PI)` with nothing but `RPM` bound, `Boost` is missing and `PI` is not. A call
of no function fails before its argument, which has no value either. -/
theorem eval_without_boost :
    (∃ c, compile "RPM/max(Boost,PI)" = .ok c ∧ c.names = ["RPM", "Boost", "PI"] ∧
      c.eval (fun n => if n = "RPM" then some 3000.0 else none) =
        .error (.unknownName "Boost")) ∧
    (Expr.call "mean" [.name "RPM"]).eval (fun _ => none) = .error (.unknownFunction "mean") := by
  obtain ⟨hexpr, htext⟩ := eval_decided_by_names
  constructor
  · have hc : compile "RPM/max(Boost,PI)" = .ok ⟨.binary .div (.name "RPM")
        (.call "max" [.name "Boost", .name "PI"]), ["RPM", "Boost", "PI"]⟩ := by
      with_unfolding_all rfl
    exact ⟨_, hc, rfl, (((htext _ _ hc).2 _).2 _).2 (by with_unfolding_all rfl)⟩
  · exact ((hexpr _ _).2.1 _).2 (by with_unfolding_all rfl)

end VirtualChannels.Formula
