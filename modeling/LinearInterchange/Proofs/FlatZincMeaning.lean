import LinearInterchange.Proofs.FlatZincReader
import LinearInterchange.Proofs.Solutions
import Mathlib.Tactic.Ring

/-!
# The meaning of FlatZinc models

A model says of integers for its variables whether they solve it, item by item: a variable has a
value of its type and the value that is assigned to it, and a linear constraint compares the sum of
its operands with another one.  Names stand for what their items declare.  The definitions of this
file say so without an instance and without the tables of names that the reader keeps.

The reader moves constants to the right-hand side and a variable from there to the left, so what it
adds to the instance is a different comparison with the same meaning (`holdsAt_linear`).  Sums and
comparisons here are exact, since the reader refuses what leaves the range of words.
-/

namespace LinearInterchange.FlatZinc

open Text

/-! ## What expressions denote -/

/-- The name that an item declares. -/
def Item.declared? : Item → Option (List Char)
  | .param name _ | .var _ name _ | .array _ name _ => some name
  | .constr _ _ | .solve _ => none

/-- No name is declared by two items. -/
def DeclaredOnce (items : List Item) : Prop :=
  (items.filterMap Item.declared?).Nodup

instance (items : List Item) : Decidable (DeclaredOnce items) :=
  inferInstanceAs (Decidable (List.Nodup _))

/-- The number that an expression denotes among the items of a model.  Truth values are 0 and 1, a
variable has the value of its name, and the name of a parameter stands for its value. -/
inductive Denotes (items : List Item) (σ : String → ℤ) : Expr → ℤ → Prop
  | int (n : Int64) : Denotes items σ (.int n) n.toInt
  | bool (b : Bool) : Denotes items σ (.bool b) (if b then 1 else 0)
  | var {type : VarType} {name : List Char} {value : Option Expr}
      (hitem : .var type name value ∈ items) : Denotes items σ (.ident name) (σ (.ofList name))
  | param {name : List Char} {e : Expr} {n : ℤ} (hitem : .param name e ∈ items)
      (hvalue : Denotes items σ e n) : Denotes items σ (.ident name) n

/-- The numbers that an array denotes among the items of a model. -/
inductive DenotesAll (items : List Item) (σ : String → ℤ) : Expr → List ℤ → Prop
  | array {es : List Expr} {ns : List ℤ} (helements : List.Forall₂ (Denotes items σ) es ns) :
    DenotesAll items σ (.array es) ns
  | ident {ofVars : Bool} {name : List Char} {e : Expr} {ns : List ℤ}
      (hitem : .array ofVars name e ∈ items) (hvalue : DenotesAll items σ e ns) :
      DenotesAll items σ (.ident name) ns

section Unique

variable {items : List Item} {σ : String → ℤ} {e : Expr}

/-- An item is known by the name that it declares. -/
lemma DeclaredOnce.eq_of_declared {items : List Item} (h : DeclaredOnce items) {a b : Item}
    (ha : a ∈ items) (hb : b ∈ items) {name : List Char} (haname : a.declared? = some name)
    (hbname : b.declared? = some name) : a = b := by
  induction items with
  | nil => cases ha
  | cons item items ih =>
    have hrest : DeclaredOnce items :=
      h.sublist (List.Sublist.filterMap _ (List.sublist_cons_self ..))
    -- the first item does not share its name with a later one
    have hfirst : ∀ c ∈ items, item.declared? = some name → c.declared? ≠ some name := by
      intro c hc hitem hcname
      rw [DeclaredOnce, List.filterMap_cons_some hitem, List.nodup_cons] at h
      exact h.1 (List.mem_filterMap.2 ⟨c, hc, hcname⟩)
    rcases List.mem_cons.1 ha with rfl | ha'
    · rcases List.mem_cons.1 hb with rfl | hb'
      · rfl
      · exact absurd hbname (hfirst b hb' haname)
    · rcases List.mem_cons.1 hb with rfl | hb'
      · exact absurd haname (hfirst a ha' hbname)
      · exact ih hrest ha' hb'

/-- An expression denotes at most one number. -/
lemma Denotes.unique (h : DeclaredOnce items) {m n : ℤ} (hm : Denotes items σ e m)
    (hn : Denotes items σ e n) : m = n := by
  induction hm with
  | int n =>
    cases hn
    rfl
  | bool b =>
    cases hn
    rfl
  | var hitem =>
    cases hn with
    | var => rfl
    | param hitem' => cases h.eq_of_declared hitem hitem' rfl rfl
  | param hitem hvalue ih =>
    cases hn with
    | var hitem' => cases h.eq_of_declared hitem hitem' rfl rfl
    | param hitem' hvalue' =>
      cases h.eq_of_declared hitem hitem' rfl rfl
      exact ih hvalue'

/-- Expressions denote at most one number each. -/
lemma Denotes.unique_all (h : DeclaredOnce items) {es : List Expr} {ms ns : List ℤ}
    (hm : List.Forall₂ (Denotes items σ) es ms) (hn : List.Forall₂ (Denotes items σ) es ns) :
    ms = ns := by
  induction hm generalizing ns with
  | nil =>
    cases hn
    rfl
  | cons hfirst _ ih =>
    cases hn with
    | cons hfirst' hrest' => rw [hfirst.unique h hfirst', ih hrest']

/-- An array denotes at most one list of numbers. -/
lemma DenotesAll.unique (h : DeclaredOnce items) {ms ns : List ℤ} (hm : DenotesAll items σ e ms)
    (hn : DenotesAll items σ e ns) : ms = ns := by
  induction hm with
  | array helements =>
    cases hn with
    | array helements' => exact Denotes.unique_all h helements helements'
  | ident hitem hvalue ih =>
    cases hn with
    | ident hitem' hvalue' =>
      cases h.eq_of_declared hitem hitem' rfl rfl
      exact ih hvalue'

end Unique

/-! ## What items say -/

/-- The numbers that a variable of a type may stand for. -/
def VarType.Admits (settings : Settings) : VarType → ℤ → Prop
  | .bool, x => x = 0 ∨ x = 1
  | .int, x => ∃ ub, settings.defaultUpper = some ub ∧ -ub.toInt ≤ x ∧ x ≤ ub.toInt
  | .range lb ub, x => lb.toInt ≤ x ∧ x ≤ ub.toInt
  | .other _, _ => False

/-- The comparison that a constraint of a given name makes. -/
def Compares (name : String) (lhs rhs : ℤ) : Prop :=
  match name with
  | "int_lin_le" | "bool_lin_le" => lhs ≤ rhs
  | "int_lin_eq" | "bool_lin_eq" => lhs = rhs
  | "int_lin_ge" => rhs ≤ lhs
  | _ => False

/-- The item is satisfied when the variables have the values of their names. -/
def Item.Holds (settings : Settings) (items : List Item) (σ : String → ℤ) : Item → Prop
  | .var type name value =>
    type.Admits settings (σ (.ofList name)) ∧
      ∀ e ∈ value, Denotes items σ e (σ (.ofList name))
  | .constr name args =>
    ∃ coeffs operands rhs cs xs r, args = [coeffs, operands, rhs] ∧
      DenotesAll items σ coeffs cs ∧ DenotesAll items σ operands xs ∧ Denotes items σ rhs r ∧
      cs.length = xs.length ∧ Compares (.ofList name) (List.zipWith (· * ·) cs xs).sum r
  | .param _ _ | .array _ _ _ | .solve _ => True

section Holds

variable {settings : Settings} {items : List Item} {σ : String → ℤ}

/-- A variable with an assigned value is equal to the number that the value denotes. -/
lemma Item.holds_var_iff (h : DeclaredOnce items) {type : VarType} {name : List Char} {e : Expr}
    {n : ℤ} (he : Denotes items σ e n) :
    (Item.var type name (some e)).Holds settings items σ ↔
      type.Admits settings (σ (.ofList name)) ∧ σ (.ofList name) = n := by
  refine and_congr_right fun _ => ⟨fun hall => (hall e rfl).unique h he, fun heq => ?_⟩
  rintro e' ⟨⟩
  rwa [heq]

/-- A constraint compares the numbers that its arguments denote. -/
lemma Item.holds_constr_iff (h : DeclaredOnce items) {name : List Char}
    {coeffs operands rhs : Expr} {cs xs : List ℤ} {r : ℤ} (hcs : DenotesAll items σ coeffs cs)
    (hxs : DenotesAll items σ operands xs) (hr : Denotes items σ rhs r)
    (hlength : cs.length = xs.length) :
    (Item.constr name [coeffs, operands, rhs]).Holds settings items σ ↔
      Compares (.ofList name) (List.zipWith (· * ·) cs xs).sum r := by
  refine ⟨?_, fun hcompares => ⟨_, _, _, cs, xs, r, rfl, hcs, hxs, hr, hlength, hcompares⟩⟩
  rintro ⟨_, _, _, cs', xs', r', hargs, hcs', hxs', hr', -, hcompares⟩
  cases hargs
  rwa [hcs'.unique h hcs, hxs'.unique h hxs, hr'.unique h hr] at hcompares

end Holds

/-- The goal that an item sets. -/
def Item.goal? : Item → Option Goal
  | .solve goal => some goal
  | _ => none

/-- The objective of an instance is what a goal asks for. -/
def Goal.IsObjectiveOf (inst : Instance) : Goal → Prop
  | .satisfy => inst.objective = {}
  | .optimize direction e =>
    ∃ x ∈ inst.vars, e = .ident x.name.toList ∧ inst.objective = ⟨direction, [⟨1, x.var⟩]⟩

/-! ## Linear constraints -/

section Linear

variable {value : Var → ℤ} {xs : List (Int64 × Operand)} {bound bound' n : Int64}
  {terms : List Term} {rel : Relation}

/-- The value of an operand under an assignment. -/
def Operand.valueAt (value : Var → ℤ) : Operand → ℤ
  | .var v => value v
  | .const n => n.toInt

/-- A word that is in range is exact. -/
lemma checkedWord_ok {m : ℤ} (h : checkedWord m = .ok n) : n.toInt = m := by
  unfold checkedWord at h
  cases hw : word? m with
  | none =>
    rw [hw] at h
    cases h
  | some w =>
    rw [hw] at h
    obtain rfl := Except.ok.inj h
    exact toInt_of_word? hw

/-- What constants add to a sum is taken off the bound. -/
lemma sumAt_moveConstants (h : moveConstants bound xs = .ok (terms, bound')) (value : Var → ℤ) :
    Term.sumAt value terms + (bound.toInt - bound'.toInt : ℤ) =
      ((xs.map fun x => x.1.toInt * x.2.valueAt value).sum : ℤ) := by
  induction xs generalizing bound terms bound' with
  | nil =>
    cases h
    simp
  | cons x xs ih =>
    obtain ⟨c, op⟩ := x
    cases op with
    | var v =>
      obtain ⟨⟨ts, b⟩, hrest, heq⟩ := bind_eq_ok.1 h
      cases heq
      rw [Term.sumAt_cons, List.map_cons, List.sum_cons, Int.cast_add, ← ih hrest, Coeff.val_ofWord,
        add_assoc]
      simp [Operand.valueAt]
    | const k =>
      obtain ⟨product, hproduct, h⟩ := bind_eq_ok.1 h
      obtain ⟨b, hb, hrest⟩ := bind_eq_ok.1 h
      have hsum := ih hrest
      rw [checkedWord_ok hb, checkedWord_ok hproduct] at hsum
      rw [List.map_cons, List.sum_cons, Int.cast_add, ← hsum]
      simp only [Operand.valueAt]
      push_cast
      ring

/-- A comparison is settled by the difference of its sides. -/
lemma compares_iff_of_sub_eq {a b c d : ℚ} (h : a - b = c - d) :
    rel.Compares a b ↔ rel.Compares c d := by
  cases rel with
  | le => rw [Relation.Compares, Relation.Compares, ← sub_nonpos, h, sub_nonpos]
  | eq => rw [Relation.Compares, Relation.Compares, ← sub_eq_zero, h, sub_eq_zero]
  | ge => rw [Relation.Compares, Relation.Compares, ← sub_nonneg, h, sub_nonneg]

/-- The constraint that is added compares the sum of the operands with the right-hand side. -/
lemma holdsAt_linear {coeffs : List Int64} {ops : List Operand} {rhs : Operand} {c : LinConstraint}
    (h : linear coeffs ops rel rhs = .ok c) (value : Var → ℤ) :
    coeffs.length = ops.length ∧
      (c.HoldsAt value ↔ rel.Compares
        ((List.zipWith (fun c op => c.toInt * op.valueAt value) coeffs ops).sum : ℤ)
        (rhs.valueAt value : ℤ)) := by
  unfold linear at h
  split at h
  · cases h
  next hlength =>
    refine ⟨not_not.1 hlength, ?_⟩
    obtain ⟨⟨terms, bound⟩, hmove, h⟩ := bind_eq_ok.1 h
    have hsum := sumAt_moveConstants hmove value
    rw [List.zip, List.map_zipWith] at hsum
    -- a variable on the right is moved to the left, a number joins the constants
    cases rhs with
    | var v =>
      cases h
      have happend : Term.sumAt value (terms ++ [⟨.ofWord (-1), v⟩]) =
          Term.sumAt value terms - value v := by
        simp [Term.sumAt, sub_eq_add_neg]
      refine compares_iff_of_sub_eq ?_
      rw [happend, ← hsum, Coeff.val_ofWord, Operand.valueAt, Int64.toInt_zero]
      push_cast
      ring
    | const k =>
      obtain ⟨b, hb, heq⟩ := bind_eq_ok.1 h
      cases heq
      refine compares_iff_of_sub_eq ?_
      rw [← hsum, Coeff.val_ofWord, checkedWord_ok hb, Operand.valueAt, Int64.toInt_zero]
      push_cast
      ring

/-- A comparison of a constraint that is supported is the one that its name says. -/
lemma relationOf_ok {name : String} (h : relationOf name = .ok rel) (a b : ℤ) :
    rel.Compares (a : ℚ) (b : ℚ) ↔ Compares name a b := by
  unfold relationOf at h
  split at h <;> cases h <;> simp [Relation.Compares, Compares]

end Linear

/-! ## The names that the reader keeps -/

/-- The variables of an instance have the values of their names. -/
def Assigns (inst : Instance) (σ : String → ℤ) (value : Var → ℤ) : Prop :=
  ∀ x ∈ inst.vars, value x.var = σ x.name

/-- What the reader keeps of names agrees with the items of the model. -/
structure Scope.Describes (items : List Item) (inst : Instance) (s : Scope) : Prop where
  registered : inst.Registered
  /-- Every variable was declared by an item. -/
  vars : ∀ x ∈ inst.vars, ∃ type value, .var type x.name.toList value ∈ items
  /-- A parameter is kept with the number that its name denotes. -/
  params : ∀ name n, s.params.get? name = some n →
    ∀ σ, Denotes items σ (.ident name.toList) n.toInt
  /-- An array of parameters is kept with the numbers that its name denotes. -/
  paramArrays : ∀ name ns, s.paramArrays.get? name = some ns →
    ∀ σ, DenotesAll items σ (.ident name.toList) (ns.map Int64.toInt)
  /-- An array of variables is kept with operands that have the values which its name denotes. -/
  varArrays : ∀ name ops, s.varArrays.get? name = some ops →
    ∀ σ value, Assigns inst σ value →
      DenotesAll items σ (.ident name.toList) (ops.map (Operand.valueAt value))

namespace Scope.Describes

variable {items : List Item} {inst inst' : Instance} {s : Scope} {σ : String → ℤ}
  {value : Var → ℤ} {e : Expr}

/-- A number that an expression stands for is the one that it denotes. -/
lemma number_ok (h : s.Describes items inst) {n : Int64} (hn : s.number e = .ok n)
    (σ : String → ℤ) : Denotes items σ e n.toInt := by
  cases e with
  | bool b =>
    obtain rfl := Except.ok.inj hn
    cases b <;> exact .bool _
  | int m =>
    obtain rfl := Except.ok.inj hn
    exact .int m
  | ident name =>
    rw [Scope.number] at hn
    cases hget : s.params.get? (.ofList name) with
    | none =>
      rw [hget] at hn
      cases hn
    | some m =>
      rw [hget] at hn
      obtain rfl := Except.ok.inj hn
      have hdenotes := h.params _ _ hget σ
      rwa [String.toList_ofList] at hdenotes
  | array es => cases hn

/-- The numbers that an array stands for are those that it denotes. -/
lemma numbers_ok (h : s.Describes items inst) {ns : List Int64} (hns : s.numbers e = .ok ns)
    (σ : String → ℤ) : DenotesAll items σ e (ns.map Int64.toInt) := by
  cases e with
  | bool b => cases hns
  | int m => cases hns
  | ident name =>
    rw [Scope.numbers] at hns
    cases hget : s.paramArrays.get? (.ofList name) with
    | none =>
      rw [hget] at hns
      cases hns
    | some ms =>
      rw [hget] at hns
      obtain rfl := Except.ok.inj hns
      have hdenotes := h.paramArrays _ _ hget σ
      rwa [String.toList_ofList] at hdenotes
  | array es =>
    refine .array (List.forall₂_map_right_iff.2 ?_)
    exact (mapM_eq_ok.1 hns).imp fun _ _ hn => h.number_ok hn σ

/-- The value of an operand that an expression stands for is the number that it denotes. -/
lemma operand_ok (h : s.Describes items inst) (hassigns : Assigns inst σ value) {op : Operand}
    (hop : s.operand inst e = .ok op) : Denotes items σ e (op.valueAt value) := by
  have hnumber : (s.number e).map Operand.const = .ok op →
      Denotes items σ e (op.valueAt value) := by
    intro hop
    obtain ⟨n, hn, rfl⟩ := map_eq_ok.1 hop
    exact h.number_ok hn σ
  unfold Scope.operand at hop
  cases e with
  | ident name =>
    cases hnamed : inst.varNamed? (.ofList name) with
    | none =>
      simp only [hnamed] at hop
      exact hnumber hop
    | some v =>
      simp only [hnamed] at hop
      obtain rfl := Except.ok.inj hop
      obtain ⟨x, hmem, hname, rfl⟩ := h.registered.varNamed?_eq_some_iff_mem.1 hnamed
      obtain ⟨type, assigned, hitem⟩ := h.vars x hmem
      rw [hname, String.toList_ofList] at hitem
      rw [Operand.valueAt, hassigns x hmem, hname]
      exact .var hitem
  | bool | int | array => exact hnumber hop

/-- The values of the operands that an array stands for are the numbers that it denotes. -/
lemma operands_ok (h : s.Describes items inst) (hassigns : Assigns inst σ value)
    {ops : List Operand} (hops : s.operands inst e = .ok ops) :
    DenotesAll items σ e (ops.map (Operand.valueAt value)) := by
  cases e with
  | bool b => cases hops
  | int m => cases hops
  | ident name =>
    rw [Scope.operands] at hops
    cases hget : s.varArrays.get? (.ofList name) with
    | none =>
      rw [hget] at hops
      obtain ⟨ns, hns, rfl⟩ := map_eq_ok.1 hops
      rw [List.map_map]
      exact h.numbers_ok hns σ
    | some ops' =>
      rw [hget] at hops
      obtain rfl := Except.ok.inj hops
      have hdenotes := h.varArrays _ _ hget σ value hassigns
      rwa [String.toList_ofList] at hdenotes
  | array es =>
    refine .array (List.forall₂_map_right_iff.2 ?_)
    exact (mapM_eq_ok.1 hops).imp fun _ _ hop => h.operand_ok hassigns hop

end Scope.Describes

end LinearInterchange.FlatZinc
