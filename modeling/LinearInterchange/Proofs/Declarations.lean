import LinearInterchange.Instance.Basic
import LinearInterchange.Proofs.Outcome
import Mathlib.Data.List.Nodup
import Mathlib.Tactic.Lemma

/-!
# The representation invariant of instances

An instance keeps its variables three times: in the order of declaration, by id and by name.
`Instance.Coherent` says that the three agree, and that every id and every name is declared once.
Beside the variables stand a counter of ids and the number of auxiliary variables, and
`Instance.Registered` says that these agree with the variables too.  `Instance.WellFormed` adds that
constraints and the objective only mention declared variables.

All declarations that are not refused do the same to an instance, `Instance.append`, and they do it
with a variable whose id and whose name are new.  So one lemma, `Registered.append`, serves all of
them.  The operations that refuse are inverted once (`declare_ok`, `newAux_ok` and so on); no later
proof unfolds them.
-/

namespace LinearInterchange

/-! ## Fresh names -/

/-- The name behind a number of underscores. -/
def underscored (k : ℕ) (name : String) : String :=
  String.ofList (List.replicate k '_') ++ name

@[simp] lemma underscored_zero (name : String) : underscored 0 name = name := by
  simp [underscored]

/-- One more underscore comes last in front of the name. -/
lemma underscored_succ (k : ℕ) (name : String) :
    underscored (k + 1) name = underscored k ("_" ++ name) := by
  apply String.toList_injective
  simp [underscored, List.replicate_succ']

/-- The candidates are the wanted name and those for the name with an underscore. -/
lemma forall_underscored_succ_iff {wanted : String} {k : ℕ} (P : String → Prop) :
    (∀ j < k + 1, P (underscored j wanted)) ↔
      P wanted ∧ ∀ j < k, P (underscored j ("_" ++ wanted)) := by
  simp only [Nat.forall_lt_succ_left, underscored_zero, underscored_succ]

/-- A fresh name is a candidate before which all are taken, so there are no more underscores in
front of it than names. -/
lemma exists_freshName_eq (taken : List String) (wanted : String) : ∃ k ≤ taken.length,
    freshName taken wanted = underscored k wanted ∧ ∀ j < k, underscored j wanted ∈ taken := by
  fun_induction freshName taken wanted with
  | case1 taken wanted hmem ih =>
    obtain ⟨k, hk, heq, htaken⟩ := ih
    have hlen := List.length_erase_of_mem hmem
    have hpos := List.length_pos_of_mem hmem
    refine ⟨k + 1, by omega, by rw [heq, underscored_succ], ?_⟩
    exact (forall_underscored_succ_iff (· ∈ taken)).2
      ⟨hmem, fun j hj => List.mem_of_mem_erase (htaken j hj)⟩
  | case2 taken wanted hmem => exact ⟨0, Nat.zero_le _, (underscored_zero wanted).symm, by simp⟩

/-- A fresh name is the wanted name behind underscores. -/
lemma freshName_eq_underscores (taken : List String) (name : String) :
    ∃ k, (freshName taken name).toList = List.replicate k '_' ++ name.toList := by
  obtain ⟨k, -, heq, -⟩ := exists_freshName_eq taken name
  exact ⟨k, by rw [heq, underscored, String.toList_append, String.toList_ofList]⟩

/-- A fresh name is not taken. -/
lemma freshName_not_mem (taken : List String) (name : String) :
    freshName taken name ∉ taken := by
  fun_induction freshName taken name with
  | case1 taken name _ ih =>
    intro hmem
    -- the result is longer than `name`, so taking `name` off the list does not hide it
    have hne : freshName (taken.erase name) ("_" ++ name) ≠ name := by
      intro heq
      obtain ⟨k, hk⟩ := freshName_eq_underscores (taken.erase name) ("_" ++ name)
      have hlen := congrArg List.length hk
      rw [heq] at hlen
      simp only [String.toList_append, List.length_append, List.length_replicate] at hlen
      have hone : "_".toList.length = 1 := by decide
      omega
    exact ih ((List.mem_erase_of_ne hne).2 hmem)
  | case2 _ _ h => exact h

/-! ## The counter of ids -/

/-- The successor of an id does not wrap around. -/
lemma Var.toNat_id_add_one (v : Var) : (v.id + 1).toNat = v.id.toNat + 1 := by
  have hle : v.id.toNat ≤ 4294967294 := UInt32.le_iff_toNat_le.1 v.id_le
  rw [UInt32.toNat_add, UInt32.toNat_one]
  omega

lemma Var.toNat_id_injective : Function.Injective fun v : Var => v.id.toNat := by
  rintro ⟨i, hi⟩ ⟨j, hj⟩ hij
  obtain rfl : i = j := UInt32.toNat_inj.1 hij
  rfl

namespace IdCounter

/-- Raising a counter takes a maximum. -/
lemma used_raise (c : IdCounter) (n : UInt32) :
    (c.raise n).2.used.toNat = max c.used.toNat n.toNat := by
  unfold raise used
  split
  case isTrue h =>
    have hlt := UInt32.lt_iff_toNat_lt.1 h
    show n.toNat = _
    omega
  case isFalse h =>
    have hle := UInt32.le_iff_toNat_le.1 (UInt32.not_lt.1 h)
    show c.next.toNat = _
    omega

/-- Marking a variable moves the counter past it and never back. -/
lemma used_mark (c : IdCounter) (v : Var) :
    (c.mark v).2.used.toNat = max c.used.toNat (v.id.toNat + 1) := by
  rw [mark, used_raise, v.toNat_id_add_one]

end IdCounter

/-- An id that is handed out is the number asked for. -/
lemma Var.id_of_ofId {id : UInt32} {v : Var} (h : Var.ofId id = .ok v) : v.id = id := by
  unfold Var.ofId at h
  split at h
  · cases h; rfl
  · cases h

/-! ## Maps -/

/-- An entry with a new key comes last. -/
lemma putEntry_of_notMem {α κ : Type} [DecidableEq κ] {key : α → κ} {x : α} {entries : List α}
    (h : key x ∉ entries.map key) : putEntry key x entries = entries ++ [x] := by
  rw [putEntry, if_neg]
  simpa using h

namespace Instance

variable {inst inst' : Instance} {x : Variable}

/-! ## The invariant -/

/-- The records of the declared variables agree. -/
structure Coherent (inst : Instance) : Prop where
  /-- The map from ids has an entry for each id in order. -/
  order_eq : inst.order = inst.byId.map (·.var)
  /-- The map from names leads from the name of each variable to its id. -/
  byName_eq : inst.byName = inst.byId.map fun x => (x.name, x.var)
  /-- Every id is declared once. -/
  nodup_order : inst.order.Nodup
  /-- Every name is declared once. -/
  nodup_takenNames : inst.takenNames.Nodup

/-- The declared variables agree with what is kept beside them. -/
structure Registered (inst : Instance) : Prop extends Coherent inst where
  /-- The counter stands above all ids. -/
  id_lt : ∀ x ∈ inst.vars, x.var.id.toNat < inst.ids.used.toNat
  /-- The counter stands no higher than it has to. -/
  used_tight : inst.ids.used.toNat = 0 ∨
    ∃ x ∈ inst.vars, inst.ids.used.toNat = x.var.id.toNat + 1
  /-- The auxiliary variables are counted. -/
  auxCount_eq : inst.auxCount = inst.vars.countP (·.origin = .auxiliary)

/-- All terms are over declared variables. -/
def DeclaresAll (inst : Instance) (ts : List Term) : Prop :=
  ∀ t ∈ ts, inst.declares t.var = true

instance (inst : Instance) (ts : List Term) : Decidable (inst.DeclaresAll ts) :=
  inferInstanceAs (Decidable (∀ t ∈ ts, inst.declares t.var = true))

/-- The instance agrees with itself, and its constraints and its objective are over declared
variables. -/
structure WellFormed (inst : Instance) : Prop extends Registered inst where
  /-- Constraints are over declared variables. -/
  constrs_declared : ∀ c ∈ inst.constrs, inst.DeclaresAll c.terms
  /-- The objective is over declared variables. -/
  objective_declared : inst.DeclaresAll inst.objective.terms

/-! ## Looking up -/

lemma mem_of_find? {v : Var} (h : inst.find? v = some x) : x ∈ inst.byId ∧ x.var = v :=
  ⟨List.mem_of_find?_eq_some h, by simpa using List.find?_some h⟩

lemma declares_iff_mem_byId {v : Var} :
    inst.declares v = true ↔ v ∈ inst.byId.map (·.var) := by
  simp [declares]

lemma declares_iff_find? {v : Var} : inst.declares v = true ↔ ∃ x, inst.find? v = some x := by
  rw [← Option.isSome_iff_exists]
  simp [declares, find?]

/-- A variable is found by its id. -/
lemma find?_of_mem (hx : x ∈ inst.vars) : inst.find? x.var = some x := by
  obtain ⟨v, -, hfind⟩ := List.mem_filterMap.1 hx
  obtain rfl := (mem_of_find? hfind).2
  exact hfind

lemma declares_of_mem (hx : x ∈ inst.vars) : inst.declares x.var = true :=
  declares_iff_find?.2 ⟨x, find?_of_mem hx⟩

lemma undeclaredIn?_eq_none_iff {ts : List Term} :
    inst.undeclaredIn? ts = none ↔ inst.DeclaresAll ts := by
  simp [undeclaredIn?, DeclaresAll]

/-- The variables in order depend on nothing but the order and the map from ids. -/
lemma vars_congr (horder : inst'.order = inst.order) (hbyId : inst'.byId = inst.byId) :
    inst'.vars = inst.vars := by
  unfold vars find?
  rw [horder, hbyId]

namespace Coherent

/-- The entry of an id is the only one with it. -/
lemma find?_of_mem_byId (h : inst.Coherent) (hx : x ∈ inst.byId) : inst.find? x.var = some x := by
  obtain ⟨y, hy⟩ := declares_iff_find?.1 (declares_iff_mem_byId.2 (List.mem_map_of_mem hx))
  obtain ⟨hmem, hvar⟩ := mem_of_find? hy
  rw [hy, List.inj_on_of_nodup_map (h.order_eq ▸ h.nodup_order) hmem hx hvar]

/-- The variables in order are the entries of the map from ids. -/
lemma vars_eq (h : inst.Coherent) : inst.vars = inst.byId := by
  rw [vars, h.order_eq, List.filterMap_map]
  calc inst.byId.filterMap (inst.find? ∘ fun x => x.var)
      = inst.byId.filterMap some := List.filterMap_congr fun _ hx => h.find?_of_mem_byId hx
    _ = inst.byId := List.filterMap_some

/-- Every id in order has an entry. -/
lemma map_var_vars (h : inst.Coherent) : inst.vars.map (·.var) = inst.order := by
  rw [h.vars_eq, h.order_eq]

/-- The names that are taken are those of the variables. -/
lemma takenNames_eq (h : inst.Coherent) : inst.takenNames = inst.names := by
  rw [takenNames, h.byName_eq, List.map_map, names, h.vars_eq]
  rfl

lemma nodup_ids (h : inst.Coherent) : (inst.vars.map (·.var)).Nodup :=
  h.map_var_vars.symm ▸ h.nodup_order

lemma nodup_names (h : inst.Coherent) : inst.names.Nodup :=
  h.takenNames_eq ▸ h.nodup_takenNames

lemma mem_vars_of_find? (h : inst.Coherent) {v : Var} (hx : inst.find? v = some x) :
    x ∈ inst.vars ∧ x.var = v := by
  rw [h.vars_eq]
  exact mem_of_find? hx

lemma declares_iff (h : inst.Coherent) {v : Var} :
    inst.declares v = true ↔ v ∈ inst.vars.map (·.var) := by
  rw [h.vars_eq]
  exact declares_iff_mem_byId

/-- A name is found with the id of the variable that has it. -/
lemma varNamed?_eq_some_iff_mem (h : inst.Coherent) {name : String} {v : Var} :
    inst.varNamed? name = some v ↔ ∃ x ∈ inst.vars, x.name = name ∧ x.var = v := by
  have hentries : inst.byName = inst.vars.map fun x => (x.name, x.var) := by
    rw [h.byName_eq, h.vars_eq]
  rw [varNamed?, Option.map_eq_some_iff]
  constructor
  · rintro ⟨⟨n, w⟩, hfind, rfl⟩
    obtain rfl : n = name := by simpa using List.find?_some hfind
    have hmem := hentries ▸ List.mem_of_find?_eq_some hfind
    obtain ⟨x, hx, heq⟩ := List.mem_map.1 hmem
    obtain ⟨rfl, rfl⟩ := Prod.mk.inj heq
    exact ⟨x, hx, rfl, rfl⟩
  · rintro ⟨x, hx, rfl, rfl⟩
    have hmem : (x.name, x.var) ∈ inst.byName := hentries ▸ List.mem_map_of_mem hx
    have hsome : (inst.byName.find? (·.1 = x.name)).isSome = true :=
      List.find?_isSome.2 ⟨_, hmem, by simp⟩
    obtain ⟨entry, hentry⟩ := Option.isSome_iff_exists.1 hsome
    have hname : entry.1 = x.name := by simpa using List.find?_some hentry
    have hsame := List.inj_on_of_nodup_map h.nodup_takenNames
      (List.mem_of_find?_eq_some hentry) hmem hname
    exact ⟨entry, hentry, by rw [hsame]⟩

/-- Looking up by name and looking up by id are inverse to each other. -/
lemma varNamed?_eq_some_iff (h : inst.Coherent) {name : String} {v : Var} :
    inst.varNamed? name = some v ↔ inst.nameOf? v = some name := by
  rw [h.varNamed?_eq_some_iff_mem, nameOf?, Option.map_eq_some_iff]
  constructor
  · rintro ⟨x, hx, rfl, rfl⟩
    exact ⟨x, find?_of_mem hx, rfl⟩
  · rintro ⟨x, hx, rfl⟩
    obtain ⟨hmem, rfl⟩ := h.mem_vars_of_find? hx
    exact ⟨x, hmem, rfl, rfl⟩

/-- Variables that are declared stay so where variables are appended. -/
lemma declares_mono (h : inst.Coherent) (hvars : inst.vars <+: inst'.vars) {v : Var}
    (hv : inst.declares v = true) : inst'.declares v = true := by
  obtain ⟨x, hx, rfl⟩ := List.mem_map.1 (h.declares_iff.1 hv)
  exact declares_of_mem (hvars.subset hx)

lemma declaresAll_mono (h : inst.Coherent) (hvars : inst.vars <+: inst'.vars) {ts : List Term}
    (hts : inst.DeclaresAll ts) : inst'.DeclaresAll ts :=
  fun t ht => h.declares_mono hvars (hts t ht)

end Coherent

/-- Whether terms are over declared variables only depends on the ids in the map. -/
lemma DeclaresAll.congr {ts us : List Term} (h : inst.DeclaresAll ts)
    (hbyId : inst'.byId.map (·.var) = inst.byId.map (·.var))
    (hterms : us.map (·.var) = ts.map (·.var)) : inst'.DeclaresAll us := by
  intro u hu
  have hmem : u.var ∈ ts.map (·.var) := hterms ▸ List.mem_map_of_mem hu
  obtain ⟨t, ht, htu⟩ := List.mem_map.1 hmem
  rw [declares_iff_mem_byId, hbyId, ← declares_iff_mem_byId, ← htu]
  exact h t ht

/-! ## What the variables determine -/

/-- The counter stands no higher than in another instance with the same variables. -/
lemma Registered.used_le (h : inst.Registered) (h' : inst'.Registered)
    (hvars : inst'.vars = inst.vars) : inst'.ids.used.toNat ≤ inst.ids.used.toNat := by
  rcases h'.used_tight with h0 | ⟨x, hx, hused⟩
  · omega
  · have := h.id_lt x (hvars ▸ hx)
    omega

/-- The variables determine all that is kept of them and beside them. -/
lemma Registered.eq_of_vars (h : inst.Registered) (h' : inst'.Registered)
    (hvars : inst'.vars = inst.vars) :
    inst' = { inst with
      name := inst'.name, constrs := inst'.constrs, objective := inst'.objective } := by
  have hbyId : inst'.byId = inst.byId := by rw [← h.vars_eq, ← h'.vars_eq, hvars]
  have horder : inst'.order = inst.order := by rw [h.order_eq, h'.order_eq, hbyId]
  have hbyName : inst'.byName = inst.byName := by rw [h.byName_eq, h'.byName_eq, hbyId]
  have hused : inst'.ids.used = inst.ids.used :=
    UInt32.toNat_inj.1 (Nat.le_antisymm (h.used_le h' hvars) (h'.used_le h hvars.symm))
  have hids : inst'.ids = inst.ids := congrArg IdCounter.mk hused
  have haux : inst'.auxCount = inst.auxCount := by rw [h.auxCount_eq, h'.auxCount_eq, hvars]
  cases inst'
  simp only at hbyId horder hbyName hids haux
  simp only [hbyId, horder, hbyName, hids, haux]

/-- The records of the variables do not depend on the name, the constraints and the objective. -/
lemma Registered.replace (h : inst.Registered) (name : Option String) (cs : List LinConstraint)
    (o : Objective) : Registered { inst with name, constrs := cs, objective := o } :=
  ⟨⟨h.order_eq, h.byName_eq, h.nodup_order, h.nodup_takenNames⟩, h.id_lt, h.used_tight,
    h.auxCount_eq⟩

/-- Other constraints and another objective over declared variables leave an instance well
formed. -/
lemma WellFormed.replace (h : inst.WellFormed) {cs : List LinConstraint} {o : Objective}
    {name : Option String} (hcs : ∀ c ∈ cs, inst.DeclaresAll c.terms)
    (ho : inst.DeclaresAll o.terms) :
    WellFormed { inst with name, constrs := cs, objective := o } where
  toRegistered := h.toRegistered.replace name cs o
  constrs_declared := hcs
  objective_declared := ho

/-- The empty instance is well formed. -/
lemma wellFormed_empty : WellFormed {} where
  order_eq := rfl
  byName_eq := rfl
  nodup_order := .nil
  nodup_takenNames := .nil
  id_lt := by simp [vars]
  used_tight := .inl rfl
  auxCount_eq := rfl
  constrs_declared := by simp
  objective_declared := by simp [DeclaresAll]

/-! ## Appending variables -/

/-- Neither the id nor the name of the variable is in use. -/
structure IsNew (inst : Instance) (x : Variable) : Prop where
  id : inst.declares x.var = false
  name : x.name ∉ inst.takenNames

/-- A new variable comes last in the map from ids. -/
lemma IsNew.putEntry_byId (h : inst.IsNew x) :
    putEntry (·.var) x inst.byId = inst.byId ++ [x] := by
  refine putEntry_of_notMem ?_
  rw [← declares_iff_mem_byId, h.id]
  exact Bool.false_ne_true

/-- A new variable comes last in the map from names. -/
lemma IsNew.putEntry_byName (h : inst.IsNew x) :
    putEntry (·.1) (x.name, x.var) inst.byName = inst.byName ++ [(x.name, x.var)] :=
  putEntry_of_notMem h.name

/-- The instance with one more variable.  The variable comes last in order and stands in both maps,
the counter is past it, and it is counted if it is auxiliary. -/
def append (inst : Instance) (x : Variable) : Instance :=
  { inst with
    order := inst.order ++ [x.var]
    byId := inst.byId ++ [x]
    byName := inst.byName ++ [(x.name, x.var)]
    ids := (inst.ids.mark x.var).2
    auxCount := inst.auxCount + if x.origin = .auxiliary then 1 else 0 }

/-- The instance with more variables. -/
def appendAll (inst : Instance) (xs : List Variable) : Instance :=
  xs.foldl append inst

/-- Appending a new variable keeps the records of the variables in agreement. -/
lemma Coherent.append (h : inst.Coherent) (hx : inst.IsNew x) : (inst.append x).Coherent where
  order_eq := by
    show inst.order ++ [x.var] = (inst.byId ++ [x]).map (·.var)
    rw [h.order_eq, List.map_append, List.map_singleton]
  byName_eq := by
    show inst.byName ++ [(x.name, x.var)] = (inst.byId ++ [x]).map fun x => (x.name, x.var)
    rw [h.byName_eq, List.map_append, List.map_singleton]
  nodup_order := by
    show (inst.order ++ [x.var]).Nodup
    have hnew : x.var ∉ inst.order := by
      rw [h.order_eq, ← declares_iff_mem_byId, hx.id]
      exact Bool.false_ne_true
    rw [← List.concat_eq_append]
    exact h.nodup_order.concat hnew
  nodup_takenNames := by
    have htaken : (inst.append x).takenNames = inst.takenNames.concat x.name := by
      simp [takenNames, Instance.append]
    rw [htaken]
    exact h.nodup_takenNames.concat hx.name

/-- A new variable that is appended comes last. -/
lemma Coherent.vars_append (h : inst.Coherent) (hx : inst.IsNew x) :
    (inst.append x).vars = inst.vars ++ [x] := by
  rw [(h.append hx).vars_eq, h.vars_eq]
  rfl

/-- Appending a new variable keeps the records in agreement. -/
lemma Registered.append (h : inst.Registered) (hx : inst.IsNew x) :
    (inst.append x).Registered := by
  have hused : (inst.append x).ids.used.toNat =
      max inst.ids.used.toNat (x.var.id.toNat + 1) := IdCounter.used_mark ..
  have hvars := h.vars_append hx
  refine { h.toCoherent.append hx with id_lt := ?_, used_tight := ?_, auxCount_eq := ?_ }
  · intro y hy
    rw [hvars, List.mem_append, List.mem_singleton] at hy
    rcases hy with hy | rfl
    · have := h.id_lt y hy
      omega
    · omega
  · -- the counter either had to move past `x` or stays where an older variable put it
    by_cases hlt : inst.ids.used.toNat ≤ x.var.id.toNat + 1
    · exact .inr ⟨x, by simp [hvars], by omega⟩
    · rcases h.used_tight with h0 | ⟨y, hy, hyeq⟩
      · omega
      · exact .inr ⟨y, by simp [hvars, hy], by omega⟩
  · show inst.auxCount + _ = _
    rw [h.auxCount_eq, hvars, List.countP_append, List.countP_singleton]
    by_cases hx : x.origin = .auxiliary <;> simp [hx]

/-- Appending a new variable keeps an instance well formed. -/
lemma WellFormed.append (h : inst.WellFormed) (hx : inst.IsNew x) : (inst.append x).WellFormed where
  toRegistered := h.toRegistered.append hx
  constrs_declared c hc :=
    h.declaresAll_mono (h.vars_append hx ▸ List.prefix_append ..) (h.constrs_declared c hc)
  objective_declared :=
    h.declaresAll_mono (h.vars_append hx ▸ List.prefix_append ..) h.objective_declared

/-- In lists of different ids and of different names, a variable behind those of an instance is
new. -/
lemma Coherent.isNew_of_nodup (h : inst.Coherent) {xs : List Variable}
    (hids : ((inst.vars ++ x :: xs).map (·.var)).Nodup)
    (hnames : ((inst.vars ++ x :: xs).map (·.name)).Nodup) : inst.IsNew x where
  id := by
    rw [Bool.eq_false_iff, ne_eq, h.declares_iff]
    intro hmem
    rw [List.map_append] at hids
    exact List.disjoint_of_nodup_append hids hmem List.mem_cons_self
  name := by
    rw [h.takenNames_eq]
    intro hmem
    rw [List.map_append] at hnames
    exact List.disjoint_of_nodup_append hnames hmem List.mem_cons_self

/-- Appending variables changes neither the name nor the constraints nor the objective. -/
lemma appendAll_eq (inst : Instance) (xs : List Variable) :
    (inst.appendAll xs).name = inst.name ∧ (inst.appendAll xs).constrs = inst.constrs ∧
      (inst.appendAll xs).objective = inst.objective := by
  induction xs generalizing inst with
  | nil => exact ⟨rfl, rfl, rfl⟩
  | cons x xs ih => exact ih (inst.append x)

/-- Appending variables with new ids and new names keeps the records in agreement. -/
lemma Registered.appendAll (h : inst.Registered) (xs : List Variable)
    (hids : ((inst.vars ++ xs).map (·.var)).Nodup)
    (hnames : ((inst.vars ++ xs).map (·.name)).Nodup) :
    (inst.appendAll xs).Registered ∧ (inst.appendAll xs).vars = inst.vars ++ xs := by
  induction xs generalizing inst with
  | nil => exact ⟨h, (List.append_nil _).symm⟩
  | cons x xs ih =>
    have hx := h.isNew_of_nodup hids hnames
    have hvars := h.vars_append hx
    rw [List.append_cons, ← hvars] at hids hnames ⊢
    exact ih (h.append hx) hids hnames

/-- The instance that has just the given variables. -/
def ofVariables (xs : List Variable) : Instance :=
  appendAll {} xs

/-- Variables with different ids and different names make an instance. -/
lemma registered_ofVariables {xs : List Variable} (hids : (xs.map (·.var)).Nodup)
    (hnames : (xs.map (·.name)).Nodup) :
    (ofVariables xs).Registered ∧ (ofVariables xs).vars = xs :=
  wellFormed_empty.toRegistered.appendAll xs hids hnames

/-! ## What operations do -/

lemma Edit.result_eq_ok {ε α : Type} {ending : Instance × Except ε α} {a : α} :
    Edit.result ending = .ok (a, inst') ↔ ending = (inst', .ok a) := by
  obtain ⟨inst, outcome⟩ := ending
  cases outcome <;> simp [Edit.result, Except.map, and_comm]

/-- An operation that returns nothing goes through if it leaves something behind. -/
lemma Edit.map_result_eq_ok {ε : Type} {ending : Instance × Except ε Unit} :
    (Edit.result ending).map (·.2) = .ok inst' ↔ ending = (inst', .ok ()) := by
  obtain ⟨inst, outcome⟩ := ending
  cases outcome <;> simp [Edit.result, Except.map]

/-- A variable with a new id and a new name is inserted, and it is not counted. -/
lemma Edit.insert_of_new (h : inst.IsNew x) :
    Edit.insert inst x = ({ inst.append x with auxCount := inst.auxCount }, .ok ()) := by
  rw [Edit.insert, if_neg h.name, append, ← h.putEntry_byId, ← h.putEntry_byName]

/-- An insertion is refused if the name is taken, and leaves no trace then. -/
lemma Edit.insert_of_mem (h : x.name ∈ inst.takenNames) :
    Edit.insert inst x = (inst, .error (.duplicateName x.name)) := by
  rw [Edit.insert, if_pos h]

/-- What is inserted under an id that is not in use is new. -/
lemma Edit.insert_ok (hid : inst.declares x.var = false)
    (h : Edit.insert inst x = (inst', .ok ())) :
    inst.IsNew x ∧ inst' = { inst.append x with auxCount := inst.auxCount } := by
  by_cases hname : x.name ∈ inst.takenNames
  · rw [insert_of_mem hname] at h
    cases h
  · have hnew : inst.IsNew x := ⟨hid, hname⟩
    rw [insert_of_new hnew] at h
    exact ⟨hnew, (Prod.mk.inj h).1.symm⟩

/-- The next id is not in use. -/
lemma Registered.not_declares_used (h : inst.Registered) {v : Var} (hv : v.id = inst.ids.used) :
    inst.declares v = false := by
  rw [Bool.eq_false_iff]
  intro hd
  obtain ⟨x, hx, rfl⟩ := List.mem_map.1 (h.declares_iff.1 hd)
  have hlt := h.id_lt x hx
  rw [hv] at hlt
  exact Nat.lt_irrefl _ hlt

/-- A declaration appends a new user variable with the next id. -/
lemma Registered.declare_ok (h : inst.Registered) {name : String} {d : Domain} {v : Var}
    (hd : inst.declare name d = .ok (v, inst')) :
    v.id = inst.ids.used ∧ inst.IsNew ⟨v, name, d, .user⟩ ∧
      inst' = inst.append ⟨v, name, d, .user⟩ := by
  have hedit := Edit.result_eq_ok.1 hd
  unfold Edit.declare at hedit
  split at hedit
  · cases hedit
  next w hw =>
    obtain ⟨hinst, houtcome⟩ := Prod.mk.inj hedit
    obtain ⟨u, hok, rfl⟩ := map_eq_ok.1 houtcome
    have hid := Var.id_of_ofId hw
    obtain ⟨hnew, heq⟩ := Edit.insert_ok (h.not_declares_used hid) (Prod.ext hinst hok)
    exact ⟨hid, hnew, heq⟩

/-- A declaration with an id appends a new user variable. -/
lemma declareWithId_ok {v : Var} {name : String} {d : Domain}
    (hd : inst.declareWithId v name d = .ok inst') :
    inst.IsNew ⟨v, name, d, .user⟩ ∧ inst' = inst.append ⟨v, name, d, .user⟩ := by
  have hedit := Edit.map_result_eq_ok.1 hd
  unfold Edit.declareWithId at hedit
  split at hedit
  · cases hedit
  next hid => exact Edit.insert_ok (by simpa using hid) hedit

lemma declareWithId_of_new {v : Var} {name : String} {d : Domain}
    (h : inst.IsNew ⟨v, name, d, .user⟩) :
    inst.declareWithId v name d = .ok (inst.append ⟨v, name, d, .user⟩) := by
  refine Edit.map_result_eq_ok.2 ?_
  rw [Edit.declareWithId, if_neg (by simp [h.id]), Edit.insert_of_new h]
  rfl

/-- A variable that is restored is new, and it is appended. -/
lemma restore_ok (hr : inst.restore x = .ok inst') : inst.IsNew x ∧ inst' = inst.append x := by
  have hedit := Edit.map_result_eq_ok.1 hr
  unfold Edit.restore at hedit
  split at hedit
  · cases hedit
  next hid =>
    split at hedit
    · cases hedit
    next inst₁ hinsert =>
      obtain ⟨hnew, rfl⟩ := Edit.insert_ok (by simpa using hid) hinsert
      refine ⟨hnew, ?_⟩
      by_cases haux : x.origin = .auxiliary
      · rw [if_pos haux] at hedit
        rw [← (Prod.mk.inj hedit).1, append, if_pos haux]
      · rw [if_neg haux] at hedit
        rw [← (Prod.mk.inj hedit).1, append, if_neg haux]
        rfl

/-- A new variable is restored. -/
lemma restore_of_new (h : inst.IsNew x) : inst.restore x = .ok (inst.append x) := by
  refine Edit.map_result_eq_ok.2 ?_
  rw [Edit.restore, if_neg (by simp [h.id]), Edit.insert_of_new h]
  by_cases haux : x.origin = .auxiliary
  · simp only [if_pos haux, append]
  · simp only [if_neg haux, append, Nat.add_zero]

/-- The next auxiliary variable, with a given id. -/
def nextAux (inst : Instance) (v : Var) (d : Domain) : Variable :=
  ⟨v, freshName inst.takenNames ("a" ++ toString (inst.auxCount + 1)), d, .auxiliary⟩

/-- The next auxiliary variable is new, and it is appended. -/
lemma Registered.newAux_eq (h : inst.Registered) {v : Var}
    (hv : Var.ofId inst.ids.used = .ok v) (d : Domain) :
    inst.IsNew (inst.nextAux v d) ∧
      Edit.newAux inst d = (inst.append (inst.nextAux v d), .ok v) := by
  have hnew : inst.IsNew (inst.nextAux v d) :=
    ⟨h.not_declares_used (Var.id_of_ofId hv), freshName_not_mem _ _⟩
  refine ⟨hnew, ?_⟩
  rw [Edit.newAux, hv, Instance.append, ← hnew.putEntry_byId, ← hnew.putEntry_byName]
  rfl

/-- A new auxiliary variable is appended with the next id and a fresh name. -/
lemma Registered.newAux_ok (h : inst.Registered) {d : Domain} {v : Var}
    (hn : inst.newAux d = .ok (v, inst')) :
    v.id = inst.ids.used ∧ inst.IsNew (inst.nextAux v d) ∧
      inst' = inst.append (inst.nextAux v d) := by
  have hedit := Edit.result_eq_ok.1 hn
  cases hv : Var.ofId inst.ids.used with
  | error e =>
    rw [Edit.newAux, hv] at hedit
    cases hedit
  | ok w =>
    obtain ⟨hnew, heq⟩ := h.newAux_eq hv d
    rw [heq] at hedit
    cases hedit
    exact ⟨Var.id_of_ofId hv, hnew, rfl⟩

/-- A domain is changed if the variable is declared. -/
lemma setDomain_ok {v : Var} {d : Domain} (h : inst.setDomain v d = .ok inst') :
    inst' = { inst with
      byId := inst.byId.map fun x => if x.var = v then { x with domain := d } else x } := by
  have hedit := Edit.map_result_eq_ok.1 h
  unfold Edit.setDomain at hedit
  split at hedit
  · exact (Prod.mk.inj hedit).1.symm
  · cases hedit

/-- A constraint is added if its variables are declared. -/
lemma addConstr_ok {c : LinConstraint} (h : inst.addConstr c = .ok inst') :
    inst.DeclaresAll c.terms ∧ inst' = { inst with constrs := inst.constrs ++ [c] } := by
  have hedit := Edit.map_result_eq_ok.1 h
  unfold Edit.addConstr at hedit
  split at hedit
  · cases hedit
  next hnone => exact ⟨undeclaredIn?_eq_none_iff.1 hnone, (Prod.mk.inj hedit).1.symm⟩

lemma addConstr_of_declared {c : LinConstraint} (h : inst.DeclaresAll c.terms) :
    inst.addConstr c = .ok { inst with constrs := inst.constrs ++ [c] } := by
  refine Edit.map_result_eq_ok.2 ?_
  rw [Edit.addConstr, undeclaredIn?_eq_none_iff.2 h]

/-- An objective is set if its variables are declared. -/
lemma setObjective_ok {o : Objective} (h : inst.setObjective o = .ok inst') :
    inst.DeclaresAll o.terms ∧ inst' = { inst with objective := o } := by
  have hedit := Edit.map_result_eq_ok.1 h
  unfold Edit.setObjective at hedit
  split at hedit
  · cases hedit
  next hnone => exact ⟨undeclaredIn?_eq_none_iff.1 hnone, (Prod.mk.inj hedit).1.symm⟩

lemma setObjective_of_declared {o : Objective} (h : inst.DeclaresAll o.terms) :
    inst.setObjective o = .ok { inst with objective := o } := by
  refine Edit.map_result_eq_ok.2 ?_
  rw [Edit.setObjective, undeclaredIn?_eq_none_iff.2 h]

/-! ## What refused operations leave behind -/

namespace Edit

variable {ε α : Type} {ending : Instance × Except ε α}

/-- If the operation is refused, it leaves the instance as it was. -/
def Atomic (inst : Instance) (ending : Instance × Except ε α) : Prop :=
  ∀ e, ending.2 = .error e → ending.1 = inst

/-- What holds of the instance and is kept where an atomic operation goes through holds of what the
operation leaves behind. -/
lemma Atomic.keeps (h : Atomic inst ending) {P : Instance → Prop} (hinst : P inst)
    (hok : ∀ inst' a, ending = (inst', .ok a) → P inst') : P ending.1 := by
  obtain ⟨inst', outcome⟩ := ending
  cases outcome with
  | error e => exact (h e rfl).symm ▸ hinst
  | ok a => exact hok inst' a rfl

/-- A name is checked before anything is changed. -/
lemma atomic_insert (inst : Instance) (x : Variable) : Atomic inst (insert inst x) := by
  unfold insert
  split
  · exact fun _ _ => rfl
  · nofun

lemma atomic_declare (inst : Instance) (name : String) (d : Domain) :
    Atomic inst (declare inst name d) := by
  unfold declare
  split
  · exact fun _ _ => rfl
  · exact fun e he => atomic_insert inst _ e (map_eq_error.1 he)

lemma atomic_declareWithId (inst : Instance) (v : Var) (name : String) (d : Domain) :
    Atomic inst (declareWithId inst v name d) := by
  unfold declareWithId
  split
  · exact fun _ _ => rfl
  · exact atomic_insert _ _

/-- A variable is counted after it was inserted, and then nothing is refused any more. -/
lemma atomic_restore (inst : Instance) (x : Variable) : Atomic inst (restore inst x) := by
  unfold restore
  split
  · exact fun _ _ => rfl
  · split
    next inst' e hinsert =>
      have hsame : (insert inst x).1 = inst := atomic_insert inst x e (by rw [hinsert])
      rw [hinsert] at hsame
      exact fun _ _ => hsame
    next => split <;> nofun

/-- An id is asked for before anything is changed. -/
lemma atomic_newAux (inst : Instance) (d : Domain) : Atomic inst (newAux inst d) := by
  unfold newAux
  split
  · exact fun _ _ => rfl
  · nofun

lemma atomic_setDomain (inst : Instance) (v : Var) (d : Domain) :
    Atomic inst (setDomain inst v d) := by
  unfold setDomain
  split
  · nofun
  · exact fun _ _ => rfl

lemma atomic_addConstr (inst : Instance) (c : LinConstraint) : Atomic inst (addConstr inst c) := by
  unfold addConstr
  split
  · exact fun _ _ => rfl
  · nofun

lemma atomic_setObjective (inst : Instance) (o : Objective) :
    Atomic inst (setObjective inst o) := by
  unfold setObjective
  split
  · exact fun _ _ => rfl
  · nofun

end Edit

/-! ## The operations keep the invariant -/

lemma Registered.newAux (h : inst.Registered) {d : Domain} {v : Var}
    (hn : inst.newAux d = .ok (v, inst')) : inst'.Registered := by
  obtain ⟨-, hnew, rfl⟩ := h.newAux_ok hn
  exact h.append hnew

lemma WellFormed.newAux (h : inst.WellFormed) {d : Domain} {v : Var}
    (hn : inst.newAux d = .ok (v, inst')) : inst'.WellFormed := by
  obtain ⟨-, hnew, rfl⟩ := h.newAux_ok hn
  exact h.append hnew

/-- Of a variable, the agreement of the records speaks of its id, its name and its origin only. -/
lemma Registered.mapVariables (h : inst.Registered) {f : Variable → Variable}
    (hvar : ∀ x, (f x).var = x.var) (hname : ∀ x, (f x).name = x.name)
    (horigin : ∀ x, (f x).origin = x.origin) :
    Registered { inst with byId := inst.byId.map f } := by
  have hcoherent : Coherent { inst with byId := inst.byId.map f } := by
    refine ⟨?_, ?_, h.nodup_order, h.nodup_takenNames⟩
    · show inst.order = (inst.byId.map f).map (·.var)
      rw [h.order_eq, List.map_map]
      exact List.map_congr_left fun x _ => (hvar x).symm
    · show inst.byName = (inst.byId.map f).map fun x => (x.name, x.var)
      rw [h.byName_eq, List.map_map]
      exact List.map_congr_left fun x _ => by simp [hname, hvar]
  have hvars : vars { inst with byId := inst.byId.map f } = inst.vars.map f := by
    rw [hcoherent.vars_eq, h.vars_eq]
  refine { hcoherent with id_lt := ?_, used_tight := ?_, auxCount_eq := ?_ }
  · rw [hvars]
    intro y hy
    obtain ⟨x, hx, rfl⟩ := List.mem_map.1 hy
    rw [hvar]
    exact h.id_lt x hx
  · rw [hvars]
    refine h.used_tight.imp_right ?_
    rintro ⟨x, hx, hused⟩
    exact ⟨f x, List.mem_map_of_mem hx, by rw [hvar]; exact hused⟩
  · rw [hvars, List.countP_map, h.auxCount_eq]
    exact List.countP_congr fun x _ => by simp [horigin]

/-- A change of a domain keeps an instance well formed. -/
lemma WellFormed.setDomain (h : inst.WellFormed) {v : Var} {d : Domain}
    (hs : inst.setDomain v d = .ok inst') : inst'.WellFormed := by
  obtain rfl := setDomain_ok hs
  set change : Variable → Variable := fun x => if x.var = v then { x with domain := d } else x
    with hchange
  have hvar : ∀ x, (change x).var = x.var := fun x => by simp only [hchange]; split <;> rfl
  have hname : ∀ x, (change x).name = x.name := fun x => by simp only [hchange]; split <;> rfl
  have horigin : ∀ x, (change x).origin = x.origin := fun x => by
    simp only [hchange]; split <;> rfl
  have hids : (inst.byId.map change).map (·.var) = inst.byId.map (·.var) := by
    rw [List.map_map]
    exact List.map_congr_left fun x _ => hvar x
  exact ⟨h.mapVariables hvar hname horigin, fun c hc => (h.constrs_declared c hc).congr hids rfl,
    h.objective_declared.congr hids rfl⟩

/-- Adding a constraint keeps an instance well formed. -/
lemma WellFormed.addConstr (h : inst.WellFormed) {c : LinConstraint}
    (ha : inst.addConstr c = .ok inst') : inst'.WellFormed := by
  obtain ⟨hc, rfl⟩ := addConstr_ok ha
  refine h.replace ?_ h.objective_declared
  intro c' hc'
  rw [List.mem_append, List.mem_singleton] at hc'
  rcases hc' with hc' | rfl
  · exact h.constrs_declared c' hc'
  · exact hc

lemma WellFormed.setObjective (h : inst.WellFormed) {o : Objective}
    (hs : inst.setObjective o = .ok inst') : inst'.WellFormed := by
  obtain ⟨ho, rfl⟩ := setObjective_ok hs
  exact h.replace h.constrs_declared ho

lemma WellFormed.takeConstrs (h : inst.WellFormed) : inst.takeConstrs.2.WellFormed :=
  h.replace (by simp) h.objective_declared

end Instance

end LinearInterchange
