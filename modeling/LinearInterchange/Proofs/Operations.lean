import LinearInterchange.Proofs.Scaling
import LinearInterchange.Proofs.Splitting
import LinearInterchange.Strategy

/-!
# Runs of operations

An instance is only ever changed by calls of its operations.  `Operation` lists them,
`Instance.perform` makes one call and `Instance.run` makes calls one after another, starting from
the empty instance and going on after calls that were refused.

What a call other than a split can do is said once (`Change`), and a split is made of such changes.
So every call keeps an instance well formed, the ones that stop in the middle included
(`WellFormed.perform`), and every run ends in a well-formed instance.  The last section spells out
what that means for the ids, the names, the counters and the references, and that a refused
declaration or change leaves no trace.
-/

namespace LinearInterchange

/-! ## Calls -/

/-- A call that builds or changes an instance. -/
inductive Operation where
  | declare (name : String) (domain : Domain)
  | declareWithId (v : Var) (name : String) (domain : Domain)
  | restore (x : Variable)
  | newAux (domain : Domain)
  | setDomain (v : Var) (domain : Domain)
  | addConstr (c : LinConstraint)
  | setObjective (o : Objective)
  | takeConstrs
  | setName (name : String)
  | applyStrategy (s : Strategy)
  | normalize (n : Normalizer)
  | splitConstrs

/-- Why a call was refused. -/
inductive Rejection where
  | instance (e : InstanceError)
  | value (e : ValueError)
  | precision (e : PrecisionLoss)
  | split (e : SplitError)
  deriving DecidableEq

/-- The call changes one variable, one constraint or the objective, and may be refused. -/
def Operation.isElementary : Operation → Bool
  | declare .. | declareWithId .. | restore .. | newAux .. | setDomain .. | addConstr ..
  | setObjective .. => true
  | takeConstrs | setName .. | applyStrategy .. | normalize .. | splitConstrs => false

namespace Instance

variable {inst inst' : Instance}

/-- What an operation leaves behind, and whether it was refused. -/
def report {ε α : Type} (reason : ε → Rejection) (ending : Instance × Except ε α) :
    Instance × Except Rejection Unit :=
  (ending.1, (ending.2.map fun _ => ()).mapError reason)

/-- Makes a call. -/
def perform (inst : Instance) : Operation → Instance × Except Rejection Unit
  | .declare name d => report .instance (Edit.declare inst name d)
  | .declareWithId v name d => report .instance (Edit.declareWithId inst v name d)
  | .restore x => report .instance (Edit.restore inst x)
  | .newAux d => report .value (Edit.newAux inst d)
  | .setDomain v d => report .instance (Edit.setDomain inst v d)
  | .addConstr c => report .instance (Edit.addConstr inst c)
  | .setObjective o => report .instance (Edit.setObjective inst o)
  | .takeConstrs => (inst.takeConstrs.2, .ok ())
  | .setName name => (inst.setName name, .ok ())
  | .applyStrategy s => (s.apply inst, .ok ())
  | .normalize n => report .precision (n.normalize inst)
  | .splitConstrs => report .split inst.splitConstrs

/-- The instance after further calls made one after another. -/
def performAll (inst : Instance) (ops : List Operation) : Instance :=
  ops.foldl (fun inst op => (inst.perform op).1) inst

/-- The instance after calls made one after another, from the empty one on. -/
def run (ops : List Operation) : Instance :=
  performAll {} ops

/-! ## One call -/

/-- What a call other than a split can do to an instance. -/
inductive Change (inst : Instance) : Instance → Prop
  | refused : Change inst inst
  | declared {x : Variable} (h : inst.IsNew x) : Change inst (inst.append x)
  | domain {inst' : Instance} {v : Var} {d : Domain} (h : inst.setDomain v d = .ok inst') :
      Change inst inst'
  | replaced {name : Option String} {cs : List LinConstraint} {o : Objective}
      (hcs : ∀ c ∈ cs, inst.DeclaresAll c.terms) (ho : inst.DeclaresAll o.terms) :
      Change inst { inst with name, constrs := cs, objective := o }

/-- A change keeps an instance well formed. -/
lemma Change.wellFormed (hchange : inst.Change inst') (h : inst.WellFormed) :
    inst'.WellFormed := by
  cases hchange with
  | refused => exact h
  | declared hnew => exact h.append hnew
  | domain hs => exact h.setDomain hs
  | replaced hcs ho => exact h.replace hcs ho

/-- A call is a change, also where it is refused, or a split. -/
lemma WellFormed.change_perform (h : inst.WellFormed) (op : Operation) :
    inst.Change (inst.perform op).1 ∨ op = .splitConstrs := by
  cases op with
  | declare name d =>
    refine .inl ((Edit.atomic_declare inst name d).keeps (P := inst.Change) .refused ?_)
    intro inst' v hd
    obtain ⟨-, hnew, rfl⟩ := h.declare_ok (Edit.result_eq_ok.2 hd)
    exact .declared hnew
  | declareWithId v name d =>
    refine .inl ((Edit.atomic_declareWithId inst v name d).keeps (P := inst.Change) .refused ?_)
    intro inst' _ hd
    obtain ⟨hnew, rfl⟩ := declareWithId_ok (Edit.map_result_eq_ok.2 hd)
    exact .declared hnew
  | restore x =>
    refine .inl ((Edit.atomic_restore inst x).keeps (P := inst.Change) .refused ?_)
    intro inst' _ hr
    obtain ⟨hnew, rfl⟩ := restore_ok (Edit.map_result_eq_ok.2 hr)
    exact .declared hnew
  | newAux d =>
    refine .inl ((Edit.atomic_newAux inst d).keeps (P := inst.Change) .refused ?_)
    intro inst' v hn
    obtain ⟨-, hnew, rfl⟩ := h.newAux_ok (Edit.result_eq_ok.2 hn)
    exact .declared hnew
  | setDomain v d =>
    refine .inl ((Edit.atomic_setDomain inst v d).keeps (P := inst.Change) .refused ?_)
    intro inst' _ hs
    exact .domain (Edit.map_result_eq_ok.2 hs)
  | addConstr c =>
    refine .inl ((Edit.atomic_addConstr inst c).keeps (P := inst.Change) .refused ?_)
    intro inst' _ ha
    have hwf := h.addConstr (Edit.map_result_eq_ok.2 ha)
    obtain ⟨-, rfl⟩ := addConstr_ok (Edit.map_result_eq_ok.2 ha)
    exact .replaced hwf.constrs_declared hwf.objective_declared
  | setObjective o =>
    refine .inl ((Edit.atomic_setObjective inst o).keeps (P := inst.Change) .refused ?_)
    intro inst' _ hs
    obtain ⟨ho, rfl⟩ := setObjective_ok (Edit.map_result_eq_ok.2 hs)
    exact .replaced h.constrs_declared ho
  | takeConstrs => exact .inl (.replaced (by simp) h.objective_declared)
  | setName | applyStrategy => exact .inl (.replaced h.constrs_declared h.objective_declared)
  | normalize n =>
    have hwf := n.wellFormed_normalize h
    obtain ⟨cs, o, heq, -⟩ := n.normalize_eq inst
    show inst.Change (n.normalize inst).1 ∨ _
    rw [heq] at hwf ⊢
    exact .inl (.replaced hwf.constrs_declared hwf.objective_declared)
  | splitConstrs => exact .inr rfl

/-- Every call keeps an instance well formed. -/
lemma WellFormed.perform (h : inst.WellFormed) (op : Operation) :
    (inst.perform op).1.WellFormed := by
  rcases h.change_perform op with hchange | rfl
  · exact hchange.wellFormed h
  · exact h.splitConstrs

/-- A call of an operation is refused if the operation is, and leaves the same behind. -/
lemma Edit.Atomic.report {ε α : Type} {ending : Instance × Except ε α}
    (h : Edit.Atomic inst ending) (reason : ε → Rejection) :
    Edit.Atomic inst (report reason ending) := by
  intro e he
  obtain ⟨e', he', -⟩ := mapError_eq_error.1 he
  exact h e' (map_eq_error.1 he')

/-- A refused elementary call leaves the instance as it was. -/
lemma atomic_perform (inst : Instance) {op : Operation} (hop : op.isElementary = true) :
    Edit.Atomic inst (inst.perform op) := by
  cases op with
  | declare name d => exact (Edit.atomic_declare inst name d).report _
  | declareWithId v name d => exact (Edit.atomic_declareWithId inst v name d).report _
  | restore x => exact (Edit.atomic_restore inst x).report _
  | newAux d => exact (Edit.atomic_newAux inst d).report _
  | setDomain v d => exact (Edit.atomic_setDomain inst v d).report _
  | addConstr c => exact (Edit.atomic_addConstr inst c).report _
  | setObjective o => exact (Edit.atomic_setObjective inst o).report _
  | takeConstrs | setName | applyStrategy | normalize | splitConstrs => cases hop

/-! ## Runs -/

/-- Further calls keep an instance well formed. -/
lemma WellFormed.performAll (h : inst.WellFormed) (ops : List Operation) :
    (inst.performAll ops).WellFormed := by
  induction ops generalizing inst with
  | nil => exact h
  | cons op ops ih => exact ih (h.perform op)

/-- Every run ends in a well-formed instance. -/
lemma wellFormed_run (ops : List Operation) : (run ops).WellFormed :=
  wellFormed_empty.performAll ops

/-- The counter is zero without variables and else stands right above the highest id. -/
lemma Registered.used_eq (h : inst.Registered) :
    inst.order = [] ∧ inst.ids.used.toNat = 0 ∨
      ∃ v ∈ inst.order, inst.ids.used.toNat = v.id.toNat + 1 ∧ ∀ w ∈ inst.order, w.id ≤ v.id := by
  have hlt : ∀ v ∈ inst.order, v.id.toNat < inst.ids.used.toNat := by
    rw [← h.map_var_vars]
    exact List.forall_mem_map.2 h.id_lt
  rcases h.used_tight with hzero | ⟨x, hx, hused⟩
  · refine .inl ⟨List.eq_nil_iff_forall_not_mem.2 fun v hv => ?_, hzero⟩
    have := hlt v hv
    omega
  · refine .inr ⟨x.var, h.map_var_vars ▸ List.mem_map_of_mem hx, hused, fun w hw => ?_⟩
    have := hlt w hw
    rw [UInt32.le_iff_toNat_le]
    omega

/-- There are no more auxiliary variables than ids, so their number stays in the range of ids. -/
lemma Registered.auxCount_le_used (h : inst.Registered) :
    inst.auxCount ≤ inst.ids.used.toNat := by
  have hsub : (inst.vars.map (·.var)).map (fun v => v.id.toNat) ⊆
      List.range inst.ids.used.toNat := by
    intro i hi
    rw [List.map_map, List.mem_map] at hi
    obtain ⟨x, hx, rfl⟩ := hi
    exact List.mem_range.2 (h.id_lt x hx)
  have hlen := (List.subperm_of_subset (h.nodup_ids.map Var.toNat_id_injective) hsub).length_le
  rw [List.length_map, List.length_map, List.length_range] at hlen
  rw [h.auxCount_eq]
  exact List.countP_le_length.trans hlen

/-- **Runs keep the representation invariant.**  After any calls, refused ones included, the order
lists every declared id exactly once and nothing else; the map from names and the map from ids are
inverse to each other, so that names are different; the counter stands at zero or right above the
highest id; the auxiliary variables are counted; and constraints and the objective mention declared
variables only.  A refused elementary call leaves the instance exactly as it was. -/
theorem run_invariant (ops : List Operation) :
    (∀ v, (run ops).declares v = true ↔ (run ops).order.count v = 1) ∧
    (∀ v, (run ops).order.count v ≤ 1) ∧
    (run ops).vars.map (·.var) = (run ops).order ∧
    (∀ name v, (run ops).varNamed? name = some v ↔ (run ops).nameOf? v = some name) ∧
    (run ops).takenNames.Nodup ∧ (run ops).names.Nodup ∧
    ((run ops).order = [] ∧ (run ops).ids.used.toNat = 0 ∨
      ∃ v ∈ (run ops).order, (run ops).ids.used.toNat = v.id.toNat + 1 ∧
        ∀ w ∈ (run ops).order, w.id ≤ v.id) ∧
    (run ops).auxCount = (run ops).vars.countP (·.origin = .auxiliary) ∧
    (run ops).auxCount ≤ (run ops).ids.used.toNat ∧
    (∀ c ∈ (run ops).constrs, ∀ t ∈ c.terms, (run ops).declares t.var = true) ∧
    (∀ t ∈ (run ops).objective.terms, (run ops).declares t.var = true) ∧
    ∀ op : Operation, op.isElementary = true → ∀ e, ((run ops).perform op).2 = .error e →
      ((run ops).perform op).1 = run ops := by
  have hwf := wellFormed_run ops
  refine ⟨?_, ?_, hwf.map_var_vars, fun name v => hwf.varNamed?_eq_some_iff, hwf.nodup_takenNames,
    hwf.nodup_names, hwf.used_eq, hwf.auxCount_eq, hwf.auxCount_le_used, hwf.constrs_declared,
    hwf.objective_declared, ?_⟩
  · intro v
    rw [hwf.declares_iff, hwf.map_var_vars]
    constructor
    · exact List.count_eq_one_of_mem hwf.nodup_order
    · intro hcount
      exact List.count_pos_iff.1 (hcount ▸ Nat.one_pos)
  · exact List.nodup_iff_count_le_one.1 hwf.nodup_order
  · intro op hop e he
    exact atomic_perform _ hop e he

/-- A name that is declared a second time is refused and leaves no trace, also in an instance whose
ids have a gap. -/
theorem run_duplicate_name :
    let inst := run [.declare "x" .bool, .restore ⟨⟨7, by decide⟩, "y", .range (-2) 2, .auxiliary⟩]
    (inst.perform (.declare "x" .bool)).2 = .error (.instance (.duplicateName "x")) ∧
      (inst.perform (.declare "x" .bool)).1 = inst := by
  have hrefused : ((run [.declare "x" .bool,
      .restore ⟨⟨7, by decide⟩, "y", .range (-2) 2, .auxiliary⟩]).perform (.declare "x" .bool)).2 =
        .error (.instance (.duplicateName "x")) := by decide
  obtain ⟨-, -, -, -, -, -, -, -, -, -, -, hatomic⟩ := run_invariant
    [.declare "x" .bool, .restore ⟨⟨7, by decide⟩, "y", .range (-2) 2, .auxiliary⟩]
  exact ⟨hrefused, hatomic _ rfl _ hrefused⟩

end Instance

end LinearInterchange
