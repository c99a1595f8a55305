import LinearInterchange.Conversion.Reader
import LinearInterchange.Proofs.FlatZincMeaning
import Mathlib

/-!
# FlatZinc models and their instances

An instance that is read from a model has the solutions of the model.  The invariant behind this is
`Model.Means`: after some of the items the variables are those of these items, the solutions are the
assignments that satisfy these items, and what is kept of names agrees with the model.  Each kind of
item keeps it (`Model.Means.add`), so it holds at the end of the model (`Model.Means.addItems`).

That no name is declared twice is needed because the reader looks a name up among the variables
first, and in a table where the last declaration counts.
-/

namespace LinearInterchange.FlatZinc

open Text

/-! ## Adding items -/

/-- The name of the variable that an item declares. -/
def Item.varName? : Item → Option String
  | .var _ name _ => some (.ofList name)
  | _ => none

/-- The type of a variable becomes the domain of the numbers that it admits. -/
lemma domain_ok {settings : Settings} (hub : ∀ ub, settings.defaultUpper = some ub → 0 ≤ ub.toInt)
    {type : VarType} {name : String} {d : Domain} (h : type.domain settings name = .ok d) (x : ℤ) :
    d.Includes x ↔ type.Admits settings x := by
  cases type with
  | bool =>
    obtain rfl := Except.ok.inj h
    have hleast : Domain.bool.least.toInt = 0 := by decide
    have hgreatest : Domain.bool.greatest.toInt = 1 := by decide
    rw [Domain.Includes, VarType.Admits, hleast, hgreatest]
    omega
  | int =>
    rw [VarType.domain] at h
    cases hdefault : settings.defaultUpper with
    | none =>
      rw [hdefault] at h
      cases h
    | some ub =>
      rw [hdefault] at h
      obtain ⟨rfl, -⟩ := Domain.ofBounds_ok (mapError_eq_ok.1 h)
      -- the default is not negative, so its negation does not wrap around
      have hneg : (-ub).toInt = -ub.toInt := by
        have hnonneg := hub ub hdefault
        have hlt := ub.toInt_lt
        rw [Int64.toInt_neg, Int.bmod_eq_of_le] <;> omega
      rw [VarType.Admits, Domain.Includes, Domain.least, Domain.greatest, hneg]
      simp [hdefault]
  | range lb ub =>
    obtain ⟨rfl, -⟩ := Domain.ofBounds_ok (mapError_eq_ok.1 h)
    rfl
  | other text => cases h

namespace Model

/-- The model read so far means what the items read so far say, among all items of the model. -/
structure Means (settings : Settings) (items read : List Item) (m : Model) : Prop where
  scope : m.scope.Describes items m.inst
  /-- The variables are those of the items, in order. -/
  names : m.inst.names = read.filterMap Item.varName?
  /-- The solutions of the instance satisfy the items. -/
  solution : ∀ σ value, Assigns m.inst σ value →
    (m.inst.IsSolution value ↔ ∀ item ∈ read, item.Holds settings items σ)
  /-- There is no objective without a goal. -/
  unsolved : m.solved = false → read.filterMap Item.goal? = [] ∧ m.inst.objective = {}
  /-- The objective is that of the only goal. -/
  solved : m.solved = true →
    ∃ goal, read.filterMap Item.goal? = [goal] ∧ goal.IsObjectiveOf m.inst

variable {settings : Settings} {items read : List Item} {m m' : Model}

/-- Nothing is read of a model at its start. -/
lemma means_empty : Means settings items [] {} where
  scope := {
    registered := Instance.wellFormed_empty.toRegistered
    vars := by simp [Instance.vars]
    params := fun _ _ h => by cases h
    paramArrays := fun _ _ h => by cases h
    varArrays := fun _ _ h => by cases h }
  names := rfl
  solution σ value _ :=
    ⟨fun _ => by simp, fun _ => ⟨by simp [InDomains, Instance.vars], by simp [AllHold]⟩⟩
  unsolved _ := ⟨rfl, rfl⟩
  solved := fun h => by cases h

/-- What an item other than a goal does: it goes on with the scope and the variables, and solutions
satisfy it too. -/
structure Adds (settings : Settings) (items : List Item) (m : Model) (item : Item) (m' : Model) :
    Prop where
  scope : m'.scope.Describes items m'.inst
  vars : m.inst.vars <+: m'.inst.vars
  names : m'.inst.names = m.inst.names ++ item.varName?.toList
  solution : ∀ σ value, Assigns m'.inst σ value →
    (m'.inst.IsSolution value ↔ m.inst.IsSolution value ∧ item.Holds settings items σ)
  solved : m'.solved = m.solved
  objective : m'.inst.objective = m.inst.objective

/-- The meaning of a model goes on with an item that is no goal. -/
lemma Means.snoc (h : m.Means settings items read) (hopen : m.solved = false) {item : Item}
    (hadds : m.Adds settings items item m') (hgoal : item.goal? = none) :
    m'.Means settings items (read ++ [item]) where
  scope := hadds.scope
  names := by
    rw [hadds.names, h.names, List.filterMap_append]
    cases hname : item.varName? <;> simp [hname]
  solution σ value hassigns := by
    have hassigns' : Assigns m.inst σ value := fun x hx => hassigns x (hadds.vars.subset hx)
    rw [hadds.solution σ value hassigns, h.solution σ value hassigns', List.forall_mem_append,
      List.forall_mem_singleton]
  unsolved _ := by
    rw [hadds.objective, List.filterMap_append, (h.unsolved hopen).1,
      List.filterMap_cons_none hgoal]
    exact ⟨rfl, (h.unsolved hopen).2⟩
  solved hclosed := by
    rw [hadds.solved, hopen] at hclosed
    cases hclosed

/-- An item that only declares a name for numbers leaves the instance as it is. -/
lemma adds_scope {item : Item} {s : Scope} (hscope : s.Describes items m.inst)
    (hholds : ∀ σ, item.Holds settings items σ) (hname : item.varName? = none) :
    m.Adds settings items item { m with scope := s } where
  scope := hscope
  vars := List.prefix_rfl
  names := by rw [hname, Option.toList_none, List.append_nil]
  solution σ value _ := (and_iff_left (hholds σ)).symm
  solved := rfl
  objective := rfl

/-- A constraint joins the others. -/
lemma isSolution_addConstr {inst : Instance} {c : LinConstraint} {value : Var → ℤ} :
    ({ inst with constrs := inst.constrs ++ [c] } : Instance).IsSolution value ↔
      inst.IsSolution value ∧ c.HoldsAt value := by
  constructor
  · rintro ⟨hdomains, hall⟩
    obtain ⟨hold, hnew⟩ := allHold_append.1 hall
    exact ⟨⟨hdomains, hold⟩, allHold_singleton.1 hnew⟩
  · rintro ⟨⟨hdomains, hold⟩, hnew⟩
    exact ⟨hdomains, allHold_append.2 ⟨hold, allHold_singleton.2 hnew⟩⟩

/-- A parameter is kept with the number that its value denotes. -/
lemma adds_param (hscope : m.scope.Describes items m.inst) {name : List Char} {e : Expr}
    (hitem : .param name e ∈ items) (hadd : m.add settings (.param name e) = .ok m') :
    m.Adds settings items (.param name e) m' := by
  have hnumber : ∃ n, m.scope.number e = .ok n ∧ m' =
      { m with scope := { m.scope with params := m.scope.params.insert (.ofList name) n } } := by
    cases e with
    | array es => cases hadd
    | bool | int | ident =>
      obtain ⟨n, hn, heq⟩ := bind_eq_ok.1 hadd
      cases heq
      exact ⟨n, hn, rfl⟩
  obtain ⟨n, hn, rfl⟩ := hnumber
  refine adds_scope ⟨hscope.registered, hscope.vars, fun key k hget σ => ?_, hscope.paramArrays,
    hscope.varArrays⟩ (fun _ => True.intro) rfl
  rw [KeyMap.get?_insert] at hget
  split at hget
  next hkey =>
    obtain rfl := Option.some.inj hget
    rw [← hkey, String.toList_ofList]
    exact .param hitem (hscope.number_ok hn σ)
  next => exact hscope.params key k hget σ

/-- An array is kept with what its value denotes. -/
lemma adds_array (hscope : m.scope.Describes items m.inst) {ofVars : Bool} {name : List Char}
    {e : Expr} (hitem : .array ofVars name e ∈ items)
    (hadd : m.add settings (.array ofVars name e) = .ok m') :
    m.Adds settings items (.array ofVars name e) m' := by
  cases ofVars with
  | true =>
    obtain ⟨ops, hops, heq⟩ := bind_eq_ok.1 hadd
    cases heq
    refine adds_scope ⟨hscope.registered, hscope.vars, hscope.params, hscope.paramArrays,
      fun key ops' hget σ value hassigns => ?_⟩ (fun _ => True.intro) rfl
    rw [KeyMap.get?_insert] at hget
    split at hget
    next hkey =>
      obtain rfl := Option.some.inj hget
      rw [← hkey, String.toList_ofList]
      exact .ident hitem (hscope.operands_ok hassigns hops)
    next => exact hscope.varArrays key ops' hget σ value hassigns
  | false =>
    obtain ⟨ns, hns, heq⟩ := bind_eq_ok.1 hadd
    cases heq
    refine adds_scope ⟨hscope.registered, hscope.vars, hscope.params, fun key ns' hget σ => ?_,
      hscope.varArrays⟩ (fun _ => True.intro) rfl
    rw [KeyMap.get?_insert] at hget
    split at hget
    next hkey =>
      obtain rfl := Option.some.inj hget
      rw [← hkey, String.toList_ofList]
      exact .ident hitem (hscope.numbers_ok hns σ)
    next => exact hscope.paramArrays key ns' hget σ

/-- A linear constraint is added with the meaning that its arguments give it. -/
lemma adds_constr (honce : DeclaredOnce items) (hscope : m.scope.Describes items m.inst)
    {name : List Char} {args : List Expr} (hadd : m.add settings (.constr name args) = .ok m') :
    m.Adds settings items (.constr name args) m' := by
  obtain ⟨rel, hrel, hadd⟩ := bind_eq_ok.1 hadd
  match args with
  | [coeffs, operands, rhs] =>
    obtain ⟨cs, hcs, hadd⟩ := bind_eq_ok.1 hadd
    obtain ⟨ops, hops, hadd⟩ := bind_eq_ok.1 hadd
    obtain ⟨op, hop, hadd⟩ := bind_eq_ok.1 hadd
    obtain ⟨c, hc, hadd⟩ := bind_eq_ok.1 hadd
    obtain ⟨inst, hinst, heq⟩ := bind_eq_ok.1 hadd
    cases heq
    obtain ⟨-, rfl⟩ := Instance.addConstr_ok (mapError_eq_ok.1 hinst)
    refine ⟨⟨hscope.registered.replace .., hscope.vars, hscope.params, hscope.paramArrays,
      hscope.varArrays⟩, List.prefix_rfl, (List.append_nil _).symm, fun σ value hassigns => ?_, rfl,
      rfl⟩
    have hassigns' : Assigns m.inst σ value := hassigns
    have hdcs := hscope.numbers_ok hcs σ
    have hdops := hscope.operands_ok hassigns' hops
    have hdop := hscope.operand_ok hassigns' hop
    obtain ⟨hlength, hholds⟩ := holdsAt_linear hc value
    have hlengths : (cs.map Int64.toInt).length = (ops.map (Operand.valueAt value)).length := by
      rw [List.length_map, List.length_map, hlength]
    rw [isSolution_addConstr, hholds, relationOf_ok hrel,
      Item.holds_constr_iff honce hdcs hdops hdop hlengths, List.zipWith_map]
  | [] | [_] | [_, _] | _ :: _ :: _ :: _ :: _ => cases hadd

/-- A variable is declared with the domain of its type. -/
lemma adds_declaration (hscope : m.scope.Describes items m.inst)
    (hub : ∀ ub, settings.defaultUpper = some ub → 0 ≤ ub.toInt) {type : VarType}
    {name : List Char} {assigned : Option Expr} (hitem : .var type name assigned ∈ items)
    {d : Domain} (hd : type.domain settings (.ofList name) = .ok d) {v : Var} {inst : Instance}
    (hdeclare : m.inst.declare (.ofList name) d = .ok (v, inst)) :
    m.Adds settings items (.var type name none) { m with inst } ∧
      ∀ σ value, Assigns inst σ value → value v = σ (.ofList name) := by
  obtain ⟨-, hisnew, hinst⟩ := hscope.registered.declare_ok hdeclare
  have hreg : inst.Registered := hinst ▸ hscope.registered.append hisnew
  have hvars : inst.vars = m.inst.vars ++ [⟨v, .ofList name, d, .user⟩] :=
    hinst ▸ hscope.registered.vars_append hisnew
  have hconstrs : inst.constrs = m.inst.constrs := hinst ▸ rfl
  have hobjective : inst.objective = m.inst.objective := hinst ▸ rfl
  have hmore : m.inst.vars <+: inst.vars := hvars ▸ List.prefix_append _ _
  have hnew : ∀ σ value, Assigns inst σ value → value v = σ (.ofList name) := by
    intro σ value hassigns
    exact hassigns ⟨v, .ofList name, d, .user⟩ (by simp [hvars])
  -- the new variable comes last, so the domains of the others and all constraints stay as they are
  refine ⟨⟨⟨hreg, fun x hx => ?_, hscope.params, hscope.paramArrays,
    fun key ops hget σ value h => ?_⟩, hmore, ?_, fun σ value hassigns => ?_, rfl, hobjective⟩,
    hnew⟩
  · rw [hvars, List.mem_append, List.mem_singleton] at hx
    rcases hx with hx | rfl
    · exact hscope.vars x hx
    · exact ⟨type, assigned, by rwa [String.toList_ofList]⟩
  · exact hscope.varArrays key ops hget σ value fun x hx => h x (hmore.subset hx)
  · rw [Instance.names, Instance.names, hvars, List.map_append]
    rfl
  · have hdomain := domain_ok hub hd (value v)
    rw [hnew σ value hassigns] at hdomain
    constructor
    · rintro ⟨hdomains, hall⟩
      rw [hvars] at hdomains
      obtain ⟨hold, hlast⟩ := inDomains_append.1 hdomains
      have hlast := hlast _ (List.mem_singleton_self _)
      rw [hnew σ value hassigns] at hlast
      exact ⟨⟨hold, hconstrs ▸ hall⟩, hdomain.1 hlast, fun _ h => by cases h⟩
    · rintro ⟨⟨hold, hall⟩, hadmits, -⟩
      refine ⟨?_, hconstrs.symm ▸ hall⟩
      rw [hvars]
      refine inDomains_append.2 ⟨hold, fun x hx => ?_⟩
      obtain rfl := List.mem_singleton.1 hx
      rw [hnew σ value hassigns]
      exact hdomain.2 hadmits

/-- A variable is declared with the domain of its type; an assigned value becomes an equality. -/
lemma adds_var (honce : DeclaredOnce items) (hscope : m.scope.Describes items m.inst)
    (hub : ∀ ub, settings.defaultUpper = some ub → 0 ≤ ub.toInt) {type : VarType}
    {name : List Char} {assigned : Option Expr} (hitem : .var type name assigned ∈ items)
    (hadd : m.add settings (.var type name assigned) = .ok m') :
    m.Adds settings items (.var type name assigned) m' := by
  obtain ⟨d, hd, hadd⟩ := bind_eq_ok.1 hadd
  obtain ⟨⟨v, inst⟩, hdeclare, hadd⟩ := bind_eq_ok.1 hadd
  obtain ⟨hdeclared, hnew⟩ :=
    adds_declaration hscope hub hitem hd (mapError_eq_ok.1 hdeclare)
  cases assigned with
  | none =>
    cases hadd
    exact hdeclared
  | some e =>
    obtain ⟨op, hop, hadd⟩ := bind_eq_ok.1 hadd
    obtain ⟨c, hc, hadd⟩ := bind_eq_ok.1 hadd
    obtain ⟨inst', hinst', heq⟩ := bind_eq_ok.1 hadd
    cases heq
    obtain ⟨-, rfl⟩ := Instance.addConstr_ok (mapError_eq_ok.1 hinst')
    obtain ⟨hscope', hprefix, hnames, hsolution, hsolved, hobjective⟩ := hdeclared
    refine ⟨⟨hscope'.registered.replace .., hscope'.vars, hscope'.params, hscope'.paramArrays,
      hscope'.varArrays⟩, hprefix, hnames, fun σ value hassigns => ?_, hsolved, hobjective⟩
    have hassigns' : Assigns inst σ value := hassigns
    have hdop := hscope'.operand_ok hassigns' hop
    have hequality : c.HoldsAt value ↔ σ (.ofList name) = op.valueAt value := by
      rw [(holdsAt_linear hc value).2, Relation.Compares, Int.cast_inj, ← hnew σ value hassigns']
      simp only [List.zipWith_cons_cons, List.zipWith_nil_left, List.sum_singleton,
        Operand.valueAt, Int64.toInt_one, one_mul]
    rw [isSolution_addConstr, hsolution σ value hassigns', hequality,
      Item.holds_var_iff honce hdop, and_assoc]
    simp [Item.Holds]

/-- The objective is a variable of the instance, named by the goal. -/
lemma operand_eq_var (hreg : m.inst.Registered) {e : Expr} {v : Var}
    (h : m.scope.operand m.inst e = .ok (.var v)) :
    ∃ x ∈ m.inst.vars, e = .ident x.name.toList ∧ x.var = v := by
  have hnumber : (m.scope.number e).map Operand.const ≠ .ok (.var v) := by
    intro h
    obtain ⟨n, -, hn⟩ := map_eq_ok.1 h
    cases hn
  unfold Scope.operand at h
  cases e with
  | ident name =>
    cases hnamed : m.inst.varNamed? (.ofList name) with
    | none =>
      simp only [hnamed] at h
      exact absurd h hnumber
    | some w =>
      simp only [hnamed] at h
      cases h
      obtain ⟨x, hmem, hname, hx⟩ := hreg.varNamed?_eq_some_iff_mem.1 hnamed
      refine ⟨x, hmem, ?_, hx⟩
      rw [hname, String.toList_ofList]
  | bool | int | array => exact absurd h hnumber

/-- A goal ends the model, with an objective that is what it asks for. -/
lemma Means.goal (h : m.Means settings items read) (hopen : m.solved = false) {goal : Goal}
    {inst : Instance} (hgoal : goal.IsObjectiveOf inst)
    (hinst : inst = { m.inst with objective := inst.objective }) :
    Means settings items (read ++ [.solve goal]) { m with inst, solved := true } := by
  have hreg : inst.Registered := hinst ▸ h.scope.registered.replace ..
  have hvars : inst.vars = m.inst.vars :=
    Instance.vars_congr (by rw [hinst]) (by rw [hinst])
  have hconstrs : inst.constrs = m.inst.constrs := by rw [hinst]
  have hassigns : ∀ {σ value}, Assigns inst σ value → Assigns m.inst σ value :=
    fun h x hx => h x (hvars ▸ hx)
  refine ⟨⟨hreg, ?_, h.scope.params, h.scope.paramArrays, ?_⟩, ?_, fun σ value hvalue => ?_,
    fun h => (by cases h), fun _ => ⟨goal, ?_, hgoal⟩⟩
  · show ∀ x ∈ inst.vars, _
    rw [hvars]
    exact h.scope.vars
  · exact fun key ops hget σ value hvalue =>
      h.scope.varArrays key ops hget σ value (hassigns hvalue)
  · rw [List.filterMap_append, List.filterMap_cons_none rfl, List.filterMap_nil, List.append_nil,
      ← h.names, Instance.names, Instance.names, hvars]
  · rw [List.forall_mem_append, List.forall_mem_singleton,
      ← h.solution σ value (hassigns hvalue)]
    refine Iff.trans ⟨?_, ?_⟩ (iff_self_and.2 fun _ => True.intro)
    · rintro ⟨hdomains, hall⟩
      exact ⟨hvars ▸ hdomains, hconstrs ▸ hall⟩
    · rintro ⟨hdomains, hall⟩
      exact ⟨hvars.symm ▸ hdomains, hconstrs.symm ▸ hall⟩
  · rw [List.filterMap_append, (h.unsolved hopen).1]
    rfl

/-- The meaning of a model goes on with every item. -/
lemma Means.add (h : m.Means settings items read) (hopen : m.solved = false)
    (honce : DeclaredOnce items) (hub : ∀ ub, settings.defaultUpper = some ub → 0 ≤ ub.toInt)
    {item : Item} (hitem : item ∈ items) (hadd : m.add settings item = .ok m') :
    m'.Means settings items (read ++ [item]) := by
  cases item with
  | param name e => exact h.snoc hopen (adds_param h.scope hitem hadd) rfl
  | var type name assigned => exact h.snoc hopen (adds_var honce h.scope hub hitem hadd) rfl
  | array ofVars name e => exact h.snoc hopen (adds_array h.scope hitem hadd) rfl
  | constr name args => exact h.snoc hopen (adds_constr honce h.scope hadd) rfl
  | solve goal =>
    cases goal with
    | satisfy =>
      cases hadd
      exact h.goal hopen (h.unsolved hopen).2 rfl
    | optimize direction e =>
      obtain ⟨op, hop, hadd⟩ := bind_eq_ok.1 hadd
      cases op with
      | const n => cases hadd
      | var v =>
        obtain ⟨inst, hinst, heq⟩ := bind_eq_ok.1 hadd
        cases heq
        obtain ⟨-, rfl⟩ := Instance.setObjective_ok (mapError_eq_ok.1 hinst)
        obtain ⟨x, hx, he, rfl⟩ := operand_eq_var h.scope.registered hop
        have hgoal : Goal.IsObjectiveOf { m.inst with objective := ⟨direction, [⟨1, x.var⟩]⟩ }
            (.optimize direction e) := ⟨x, hx, he, rfl⟩
        exact h.goal hopen hgoal rfl

/-- Adds items one after another, as long as there is no goal. -/
def addItems (settings : Settings) (m : Model) (items : List Item) : Except Fault Model :=
  items.foldlM (fun m item => if m.solved then .error .afterGoal else m.add settings item) m

/-- The meaning of a model goes on with any number of items. -/
lemma Means.addItems (h : m.Means settings items read) (honce : DeclaredOnce items)
    (hub : ∀ ub, settings.defaultUpper = some ub → 0 ≤ ub.toInt) {more : List Item}
    (hmore : ∀ item ∈ more, item ∈ items) (hadd : m.addItems settings more = .ok m') :
    m'.Means settings items (read ++ more) := by
  induction more generalizing m read with
  | nil =>
    cases hadd
    rwa [List.append_nil]
  | cons item more ih =>
    obtain ⟨hitem, hmore⟩ := List.forall_mem_cons.1 hmore
    rw [Model.addItems, List.foldlM_cons] at hadd
    obtain ⟨m₁, hfirst, hrest⟩ := bind_eq_ok.1 hadd
    split at hfirst
    · cases hfirst
    next hopen =>
      rw [List.append_cons]
      exact ih (h.add (by simpa using hopen) honce hub hitem hfirst) hmore hrest

end Model

/-! ## Reading a text -/

/-- The texts of the items of a model: what stands between semicolons, without comments and without
white space at the ends.  Blank ones are left out. -/
def itemTexts (cs : List Char) : List (List Char) :=
  ((Splitter.items {} cs).1.map fun item => trim item.2).filter fun text => !text.isEmpty

/-- The items of a model, in order. -/
def itemsOf (cs : List Char) : Except ItemFault (List Item) :=
  (itemTexts cs).mapM Item.read

section Reading

variable {settings : Settings} {m m' : Model} {inst : Instance}

/-- Adding texts adds the items that they are read as. -/
lemma addItems_of_addText {texts : List (List Char)}
    (h : texts.foldlM (Model.addText settings) m = .ok m') :
    ∃ items, ((texts.map trim).filter fun text => !text.isEmpty).mapM Item.read = .ok items ∧
      m.addItems settings items = .ok m' := by
  induction texts generalizing m with
  | nil =>
    cases h
    exact ⟨[], rfl, rfl⟩
  | cons text texts ih =>
    rw [List.foldlM_cons] at h
    obtain ⟨m₁, hfirst, hrest⟩ := bind_eq_ok.1 h
    obtain ⟨items, hitems, hadd⟩ := ih hrest
    simp only [Model.addText] at hfirst
    rw [List.map_cons]
    split at hfirst
    next hblank =>
      cases hfirst
      rw [List.filter_cons_of_neg (by simpa using hblank)]
      exact ⟨items, hitems, hadd⟩
    next hblank =>
      rw [List.filter_cons_of_pos (by simpa using hblank)]
      split at hfirst
      · cases hfirst
      next hopen =>
        obtain ⟨item, hitem, hfirst⟩ := bind_eq_ok.1 hfirst
        refine ⟨item :: items, ?_, ?_⟩
        · rw [List.mapM_cons]
          exact bind_eq_ok.2 ⟨item, mapError_eq_ok.1 hitem, bind_eq_ok.2 ⟨items, hitems, rfl⟩⟩
        · rw [Model.addItems, List.foldlM_cons, if_neg hopen]
          exact bind_eq_ok.2 ⟨m₁, hfirst, hadd⟩

/-- Items with positions are added like those without. -/
lemma foldlM_addText_of_addAll {items : List (Position × List Char)}
    (h : m.addAll settings items = .ok m') :
    (items.map (·.2)).foldlM (Model.addText settings) m = .ok m' := by
  induction items generalizing m with
  | nil =>
    cases h
    rfl
  | cons item items ih =>
    rw [Model.addAll, List.foldlM_cons] at h
    obtain ⟨m₁, hfirst, hrest⟩ := bind_eq_ok.1 h
    rw [List.map_cons, List.foldlM_cons]
    exact bind_eq_ok.2 ⟨m₁, mapError_eq_ok.1 hfirst, ih hrest⟩

/-- The items that are cut out are those of the text. -/
lemma splitItems_ok {starts : List ℕ} {base : Position} {cs : List Char}
    {items : List (Position × List Char)} (h : splitItems starts base cs = .ok items) :
    items.map (·.2) = (Splitter.items {} cs).1.map (·.2) := by
  simp only [splitItems] at h
  obtain ⟨located, hlocated, h⟩ := bind_eq_ok.1 h
  have hsame : located.map (·.2) = (Splitter.items {} cs).1.map (·.2) := by
    have hall := mapM_eq_ok.1 hlocated
    clear h hlocated
    generalize (Splitter.items {} cs).1 = found at hall
    induction hall with
    | nil => rfl
    | cons hitem _ ih =>
      obtain ⟨pos, -, heq⟩ := bind_eq_ok.1 hitem
      cases heq
      rw [List.map_cons, List.map_cons, ih]
  split at h
  · cases h
    exact hsame
  next offset _ =>
    obtain ⟨pos, -, h⟩ := bind_eq_ok.1 h
    cases h

/-- A text that is read gives an instance with the meaning of its items. -/
lemma means_of_decodeText {base ending : Position} {starts : List ℕ} {cs : List Char}
    (hub : ∀ ub, settings.defaultUpper = some ub → 0 ≤ ub.toInt)
    (h : decodeText settings base ending starts cs = .ok inst) :
    ∃ items, itemsOf cs = .ok items ∧ (DeclaredOnce items →
      ∃ m : Model, m.inst = inst ∧ m.solved = true ∧ m.Means settings items items) := by
  obtain ⟨split, hsplit, h⟩ := bind_eq_ok.1 h
  obtain ⟨m, hm, h⟩ := bind_eq_ok.1 h
  have htexts := foldlM_addText_of_addAll hm
  rw [splitItems_ok hsplit] at htexts
  obtain ⟨items, hitems, hadd⟩ := addItems_of_addText htexts
  rw [List.map_map] at hitems
  refine ⟨items, hitems, fun honce => ⟨m, ?_, ?_, ?_⟩⟩
  · split at h
    · exact Except.ok.inj h
    · cases h
  · split at h
    · assumption
    · cases h
  · exact Model.means_empty.addItems honce hub (fun _ => id) hadd

/-- Lines that are read one after another make up the text. -/
lemma text_of_passes {l l' : Lines} {texts : List String} {stopped : Bool}
    (h : InputStream.Passes (fun l _ line => .ok (.more (Lines.add l line))) l texts l' stopped) :
    stopped = false ∧ bytesOf l'.text = bytesOf l.text ++ (texts.map bytesOf).flatten := by
  induction h with
  | nil l => exact ⟨rfl, (List.append_nil _).symm⟩
  | done hstep => cases hstep
  | more hstep _ ih =>
    cases hstep
    refine ⟨ih.1, ?_⟩
    rw [ih.2, Lines.add, bytesOf_append, List.map_cons, List.flatten_cons, List.append_assoc]

/-- A stream is read as a whole, as the text that its bytes denote. -/
lemma decode_ok {input input' : InputStream} (h : decode settings input = (.ok inst, input')) :
    ∃ text base ending starts, bytesOf text = input.source.rest ∧
      decodeText settings base ending starts text.toList = .ok inst := by
  simp only [decode] at h
  split at h
  · cases (Prod.mk.inj h).1
  next l last input₁ hfold =>
    obtain ⟨texts, stopped, hpasses, -, hall⟩ := InputStream.passes_of_foldLines hfold
    obtain ⟨hstopped, htext⟩ := text_of_passes hpasses
    refine ⟨l.text, _, _, _, ?_, (Prod.mk.inj h).1⟩
    rw [htext, hall hstopped, ByteSource.flatten_cutLines]
    rfl

/-- The bound for variables without a domain is the one among the options, and not negative. -/
lemma ofOptions_ok {opts : Options} (h : Settings.ofOptions opts = .ok settings) :
    opts.getWord "default_ub" = .ok settings.defaultUpper ∧
      ∀ ub, settings.defaultUpper = some ub → 0 ≤ ub.toInt := by
  obtain ⟨-, -, h⟩ := bind_eq_ok.1 h
  obtain ⟨bound, hbound, h⟩ := bind_eq_ok.1 h
  rw [hbound]
  split at h
  next =>
    cases h
    exact ⟨rfl, fun _ h => by cases h⟩
  next ub =>
    split at h
    · cases h
    next hnonneg =>
      cases h
      refine ⟨rfl, fun ub' heq => ?_⟩
      obtain rfl := Option.some.inj heq
      exact Int64.le_iff_toInt_le.1 (Int64.not_lt.1 hnonneg)

end Reading

section Names

variable {inst : Instance}

/-- There are values of the variables for any values of their names. -/
lemma exists_value (inst : Instance) (σ : String → ℤ) : ∃ value, Assigns inst σ value := by
  refine ⟨fun v => (inst.nameOf? v).elim 0 σ, fun x hx => ?_⟩
  simp [Instance.nameOf?, Instance.find?_of_mem hx]

/-- There are values of the names for any values of their variables. -/
lemma exists_names (h : inst.Registered) (value : Var → ℤ) : ∃ σ, Assigns inst σ value := by
  refine ⟨fun name => (inst.varNamed? name).elim 0 value, fun x hx => ?_⟩
  have hname : inst.nameOf? x.var = some x.name := by
    rw [Instance.nameOf?, Instance.find?_of_mem hx, Option.map_some]
  simp [h.varNamed?_eq_some_iff.2 hname]

end Names

/-- **Reading keeps the meaning of a model.**  A model that is accepted is a text with items, and if
they declare no name twice, the instance has a variable for each variable item, in order.  Values of
the names and values of the variables correspond, and those values solve the instance which satisfy
every item: they are of the declared types, where `int` stands for the range that the option
`default_ub` gives, they are equal to what is assigned to them, and they make every constraint true.
The objective is the variable of the only goal, with its direction, or empty. -/
theorem next_isSolution {opts : Options} {f : InputFormat} {content : List UInt8} {seekable : Bool}
    {chunk : ℕ} {inst : Instance} {r : Reader} {input : InputStream}
    (hconfigure : ReaderKind.flatZinc.configure opts = .ok f)
    (h : Reader.next ⟨f, {}⟩ (.ofBytes content seekable chunk) = (.ok (some inst), r, input)) :
    ∃ settings text items, opts.getWord "default_ub" = .ok settings.defaultUpper ∧
      bytesOf text = content ∧ itemsOf text.toList = .ok items ∧ (DeclaredOnce items →
        inst.names = items.filterMap Item.varName? ∧
        (∀ σ, ∃ value, Assigns inst σ value) ∧ (∀ value, ∃ σ, Assigns inst σ value) ∧
        (∀ σ value, Assigns inst σ value →
          (inst.IsSolution value ↔ ∀ item ∈ items, item.Holds settings items σ)) ∧
        ∃ goal, items.filterMap Item.goal? = [goal] ∧ goal.IsObjectiveOf inst) := by
  obtain ⟨settings, hsettings, rfl⟩ := map_eq_ok.1 hconfigure
  obtain ⟨-, -, hdecode⟩ := Reader.next_ok h
  obtain ⟨hbound, hub⟩ := ofOptions_ok hsettings
  obtain ⟨inst', hinst, heq⟩ := map_eq_ok.1 (Prod.mk.inj hdecode).1
  obtain rfl := Option.some.inj (Prod.mk.inj heq).1
  obtain ⟨text, base, ending, starts, htext, hread⟩ := decode_ok (Prod.ext hinst rfl)
  have hsound : inst'.Sound := (reading_decode settings _).settles.of_ok hinst
  obtain ⟨items, hitems, hmeans⟩ := means_of_decodeText hub hread
  refine ⟨settings, text, items, hbound, htext, hitems, fun honce => ?_⟩
  obtain ⟨m, rfl, hsolved, hmeans⟩ := hmeans honce
  exact ⟨hmeans.names, exists_value _, exists_names hsound.toRegistered,
    hmeans.solution, hmeans.solved hsolved⟩

/-- A model with a variable that the option bounds, and with a constant among the operands of its
constraint. -/
theorem next_isSolution_constant :
    let opts : Options := .ofList [("default_ub", "9")]
    let format : InputFormat := .flatZinc ⟨some 9⟩
    let content :=
      bytesOf "var int: x;constraint int_lin_ge([2,5],[x,4],9);solve minimize x;"
    ReaderKind.flatZinc.configure opts = .ok format ∧
      ∃ inst r input, Reader.next ⟨format, {}⟩ (.ofBytes content false 1) =
          (.ok (some inst), r, input) ∧ inst.names = ["x"] ∧
        (∀ σ value, Assigns inst σ value → (inst.IsSolution value ↔
          (-9 ≤ σ "x" ∧ σ "x" ≤ 9) ∧ 9 ≤ 2 * σ "x" + 5 * 4)) ∧
        ∃ x ∈ inst.vars, x.name = "x" ∧ inst.objective = ⟨.minimize, [⟨1, x.var⟩]⟩ := by
  intro opts format content
  have hconfigure : ReaderKind.flatZinc.configure opts = .ok format := rfl
  have hread : (Reader.next ⟨format, {}⟩ (.ofBytes content false 1)).1.toOption.join.isSome =
      true := by decide +kernel
  obtain ⟨inst, hinst⟩ := exists_eq_ok_some hread
  rcases hnext : Reader.next ⟨format, {}⟩ (.ofBytes content false 1) with ⟨outcome, r, input⟩
  obtain rfl : outcome = .ok (some inst) := by rw [← hinst, hnext]
  obtain ⟨settings, text, items, hbound, htext, hitems, hmeans⟩ := next_isSolution hconfigure hnext
  obtain rfl := bytesOf_injective htext
  have hub : settings.defaultUpper = some 9 := (Except.ok.inj hbound).symm
  -- the three items of the text
  have htexts : itemTexts
      "var int: x;constraint int_lin_ge([2,5],[x,4],9);solve minimize x;".toList =
        ["var int: x".toList, "constraint int_lin_ge([2,5],[x,4],9)".toList,
          "solve minimize x".toList] := by decide +kernel
  have hvar : Item.read "var int: x".toList = .ok (.var .int ['x'] none) := by cbv
  have hconstr : Item.read "constraint int_lin_ge([2,5],[x,4],9)".toList =
      .ok (.constr "int_lin_ge".toList
        [.array [.int 2, .int 5], .array [.ident ['x'], .int 4], .int 9]) := by cbv
  have hsolve : Item.read "solve minimize x".toList =
      .ok (.solve (.optimize .minimize (.ident ['x']))) := by cbv
  have hall := mapM_eq_ok.2 (.cons hvar (.cons hconstr (.cons hsolve .nil)))
  rw [itemsOf, htexts, hall] at hitems
  obtain rfl := Except.ok.inj hitems
  obtain ⟨hnames, -, -, hsolution, goal, hgoal, hobjective⟩ := hmeans (by decide +kernel)
  obtain rfl := (List.cons.inj hgoal).1
  obtain ⟨x, hx, hname, hobjective⟩ := hobjective
  have hx_name : x.name = "x" := by
    rw [← String.ofList_toList (s := x.name), ← Expr.ident.inj hname]
  refine ⟨hconfigure, inst, r, input, rfl, hnames, fun σ value hassigns => ?_, x, hx, hx_name,
    hobjective⟩
  rw [hsolution σ value hassigns, List.forall_mem_cons, List.forall_mem_cons,
    List.forall_mem_singleton]
  have hx : Denotes [.var .int ['x'] none, .constr "int_lin_ge".toList
      [.array [.int 2, .int 5], .array [.ident ['x'], .int 4], .int 9],
      .solve (.optimize .minimize (.ident ['x']))] σ (.ident ['x']) (σ "x") :=
    .var (List.mem_cons_self ..)
  rw [Item.holds_constr_iff (by decide +kernel) (.array (.cons (.int 2) (.cons (.int 5) .nil)))
    (.array (.cons hx (.cons (.int 4) .nil))) (.int 9) rfl]
  simp [Item.Holds, VarType.Admits, hub, Compares]

end LinearInterchange.FlatZinc
