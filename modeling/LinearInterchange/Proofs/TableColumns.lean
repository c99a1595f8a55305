import LinearInterchange.Format.Table.Column
import LinearInterchange.Proofs.SoundInstances

/-!
# Columns become variables

The readers of tables keep columns and entries apart and bring them together at the end.  By then
every entry has to be over a column that is there: `build` reports what goes wrong with constraints
and objectives at no place of the input, because nothing can go wrong with them.

A reader has to see to two things.  Its columns are named by words and stand on lines, and its
entries have numbers below the number of columns.  Columns are only added and changed, never taken
away, so entries that are in range stay in range.
-/

namespace LinearInterchange.Table

variable {cols cols' : Columns} {c : Column} {es : List Entry} {n : ℕ}

/-! ## Columns that can become variables -/

/-- The column can become a variable: its name is a word, and it stands on a line. -/
structure Column.Valid (c : Column) : Prop where
  word : IsWord c.name.toList
  line_pos : 1 ≤ c.pos.line

namespace Columns

/-- All columns can become variables. -/
def Valid (cols : Columns) : Prop :=
  ∀ c ∈ cols, c.Valid

/-- The entries are over some of the columns. -/
def Covers (cols : Columns) (es : List Entry) : Prop :=
  ∀ e ∈ es, e.column < cols.length

lemma Covers.mono (h : cols.Covers es) (hle : cols.length ≤ cols'.length) : cols'.Covers es :=
  fun e he => Nat.lt_of_lt_of_le (h e he) hle

lemma Covers.append_entry (h : cols.Covers es) (hn : n < cols.length) (coeff : Coeff) :
    cols.Covers (es ++ [⟨n, coeff⟩]) :=
  List.forall_mem_append.2 ⟨h, List.forall_mem_singleton.2 hn⟩

lemma number?_lt {name : String} (h : cols.number? name = some n) : n < cols.length := by
  obtain ⟨hn, -, -⟩ := List.findIdx?_eq_some_iff_getElem.1 h
  exact hn

/-- A column that is looked up is there afterwards, and none is taken away for it. -/
lemma ensure_spec (h : cols.Valid) {name : String} {pos : Position} (hword : IsWord name.toList)
    (hpos : 1 ≤ pos.line) :
    (cols.ensure name pos).1 < (cols.ensure name pos).2.length ∧
      (cols.ensure name pos).2.Valid ∧ cols.length ≤ (cols.ensure name pos).2.length := by
  unfold ensure
  split
  next n hn => exact ⟨number?_lt hn, h, Nat.le_refl _⟩
  next hnone =>
    refine ⟨?_, List.forall_mem_append.2 ⟨h, List.forall_mem_singleton.2 ⟨hword, hpos⟩⟩, ?_⟩
    · rw [List.length_append]
      exact Nat.lt_succ_self _
    · rw [List.length_append]
      exact Nat.le_add_right _ _

/-- An element of a list with one changed element is an element of the list, or a changed one. -/
lemma mem_modify {α : Type} {f : α → α} {l : List α} {a : α} (h : a ∈ l.modify n f) :
    ∃ b ∈ l, a = b ∨ a = f b := by
  obtain ⟨i, hi⟩ := List.mem_iff_getElem?.1 h
  rw [List.getElem?_modify, Option.map_eq_map, Option.map_eq_some_iff] at hi
  obtain ⟨b, hb, rfl⟩ := hi
  refine ⟨b, List.mem_of_getElem? hb, ?_⟩
  split
  · exact .inr rfl
  · exact .inl rfl

/-- A change of columns that keeps their names and their places. -/
def Keeps (f : Column → Column) : Prop :=
  ∀ c, (f c).name = c.name ∧ (f c).pos = c.pos

/-- A column that is there can be changed. -/
lemma update_settles (h : cols.Valid) (hn : n < cols.length) {f : Column → Column}
    (hf : Keeps f) :
    Settles (fun _ => False) (fun cols' => cols'.Valid ∧ cols'.length = cols.length)
      (cols.update n f) := by
  rw [update, if_pos hn]
  refine ⟨fun c hc => ?_, List.length_modify ..⟩
  obtain ⟨b, hb, hcb⟩ := mem_modify hc
  rcases hcb with rfl | rfl
  · exact h c hb
  · exact ⟨(hf b).1 ▸ (h b hb).word, (hf b).2 ▸ (h b hb).line_pos⟩

end Columns

/-! ## The order of columns -/

namespace Columns

/-- The columns are those before and new ones for the names that had none, in the order in which
these names first appear. -/
def TakesUp (cols : Columns) (names : List String) (cols' : Columns) : Prop :=
  ∃ added : Columns, cols' = cols ++ added ∧
    added.map (·.name) = (names.filter (· ∉ cols.map (·.name))).eraseDups ∧
    ∀ c ∈ added, ∃ name pos, c = ({ name, pos } : Column)

lemma TakesUp.nil (cols : Columns) : cols.TakesUp [] cols :=
  ⟨[], (List.append_nil cols).symm, rfl, List.forall_mem_nil _⟩

/-- Names that are taken up after others get the columns that are still missing. -/
lemma TakesUp.append {cols'' : Columns} {names names' : List String} (h : cols.TakesUp names cols')
    (h' : cols'.TakesUp names' cols'') : cols.TakesUp (names ++ names') cols'' := by
  obtain ⟨added, rfl, hadded, hnew⟩ := h
  obtain ⟨added', rfl, hadded', hnew'⟩ := h'
  refine ⟨added ++ added', List.append_assoc .., ?_, List.forall_mem_append.2 ⟨hnew, hnew'⟩⟩
  rw [List.map_append, hadded, hadded', List.filter_append, List.eraseDups_append, List.map_append,
    hadded, List.removeAll, List.filter_filter]
  congr 2
  apply List.filter_congr
  intro name _
  simp only [List.mem_append, List.mem_eraseDups, List.mem_filter, List.elem_eq_mem]
  grind

/-- A column that is looked up is taken up. -/
lemma takesUp_ensure (cols : Columns) (name : String) (pos : Position) :
    cols.TakesUp [name] (cols.ensure name pos).2 := by
  unfold ensure
  split
  next n hn =>
    obtain ⟨hlt, hname, -⟩ := List.findIdx?_eq_some_iff_getElem.1 hn
    have hmem : name ∈ cols.map (·.name) :=
      List.mem_map.2 ⟨cols[n], List.getElem_mem hlt, of_decide_eq_true hname⟩
    refine ⟨[], (List.append_nil cols).symm, ?_, List.forall_mem_nil _⟩
    rw [List.filter_cons_of_neg (by simpa using hmem)]
    rfl
  next hnone =>
    have hnew : name ∉ cols.map (·.name) := by
      intro hmem
      obtain ⟨c, hc, hname⟩ := List.mem_map.1 hmem
      have hfree := List.findIdx?_eq_none_iff.1 hnone c hc
      exact of_decide_eq_false hfree hname
    refine ⟨_, rfl, ?_, List.forall_mem_singleton.2 ⟨name, pos, rfl⟩⟩
    rw [List.filter_cons_of_pos (by simpa using hnew)]
    rfl

/-- A column that is found keeps its number when others are taken up. -/
lemma TakesUp.number?_eq {names : List String} (h : cols.TakesUp names cols') {name : String}
    (hn : cols.number? name = some n) : cols'.number? name = some n := by
  obtain ⟨added, rfl, -, -⟩ := h
  rw [number?] at hn
  rw [number?, List.findIdx?_append, hn, Option.some_or]

/-- A column that is looked up is found at its number. -/
lemma number?_ensure (cols : Columns) (name : String) (pos : Position) :
    (cols.ensure name pos).2.number? name = some (cols.ensure name pos).1 := by
  unfold ensure
  split
  next n hn => exact hn
  next hnone =>
    rw [number?] at hnone
    rw [number?, List.findIdx?_append, hnone]
    simp

end Columns

/-! ## Declarations -/

/-- The fault is found in the columns. -/
def ColumnFault.IsOrdinary (f : ColumnFault) : Prop :=
  f.refusal.IsOrdinary

/-- A column has a domain with a value, or it is refused for its bounds or its kind. -/
lemma Column.domain_settles (settings : Settings) (c : Column) :
    Settles ColumnFault.IsOrdinary Domain.Nonempty (c.domain settings) := by
  have hrange : ∀ lb ub, Settles ColumnFault.IsOrdinary Domain.Nonempty
      ((Domain.ofBounds lb ub).mapError (.badDomain c.name)) := fun lb ub =>
    (Domain.ofBounds_settles lb ub).mapError fun e _ => by rintro a ⟨⟩
  unfold Column.domain
  split
  · rintro a ⟨⟩
  · split
    · exact Domain.nonempty_bool
    · split
      · rintro a ⟨⟩
      · exact hrange _ _
      · exact hrange _ _
      · rintro a ⟨⟩

/-- The variables were declared in the instance, which is sound. -/
structure Declared (r : List Var × Instance) : Prop where
  declares : ∀ v ∈ r.1, r.2.declares v = true
  sound : r.2.Sound

/-- A valid column is declared as one more variable, or it is refused where it stands. -/
lemma Column.declare_settles (settings : Settings) (h : c.Valid) {r : List Var × Instance}
    (hr : Declared r) :
    Settles ReadError.IsRefusal (fun r' => r'.1.length = r.1.length + 1 ∧ Declared r')
      (c.declare settings r) := by
  refine Settles.report (Settles.bind (c.domain_settles settings) fun d hd => ?_) h.line_pos
  cases hdeclare : r.2.declare c.name d with
  | error e => rintro a ⟨⟩
  | ok declared =>
    obtain ⟨v, inst'⟩ := declared
    have hsound := (hr.sound.declare h.word hd).of_ok hdeclare
    obtain ⟨-, hnew, rfl⟩ := hr.sound.declare_ok hdeclare
    have hvars := hr.sound.vars_append hnew
    refine ⟨List.length_append, ?_, hsound⟩
    refine List.forall_mem_append.2 ⟨fun w hw => ?_, List.forall_mem_singleton.2 ?_⟩
    · exact hr.sound.declares_mono (hvars ▸ List.prefix_append ..) (hr.declares w hw)
    · refine Instance.declares_of_mem (x := ⟨v, c.name, d, .user⟩) ?_
      rw [hvars]
      exact List.mem_append_right _ (List.mem_singleton_self _)

/-- Valid columns become variables, one for each, or one of them is refused where it stands. -/
lemma Columns.declareAll_settles (settings : Settings) (h : cols.Valid) {inst : Instance}
    (hinst : inst.Sound) :
    Settles ReadError.IsRefusal (fun r => r.1.length = cols.length ∧ Declared r)
      (cols.declareAll settings inst) := by
  -- every column adds one to the variables of the columns before it
  have hall : ∀ r, Declared r → Settles ReadError.IsRefusal
      (fun r' => r'.1.length = r.1.length + cols.length ∧ Declared r')
      (cols.foldlM (Column.declare settings) r) := by
    induction cols with
    | nil => exact fun r hr => ⟨rfl, hr⟩
    | cons c cols ih =>
      obtain ⟨hc, hcols⟩ := List.forall_mem_cons.1 h
      intro r hr
      rw [List.foldlM_cons]
      refine Settles.bind (c.declare_settles settings hc hr) fun r₁ ⟨hlength, hr₁⟩ => ?_
      refine (ih hcols r₁ hr₁).mono fun r₂ ⟨hlength₂, hr₂⟩ => ⟨?_, hr₂⟩
      rw [hlength₂, hlength, List.length_cons]
      omega
  have hnone : Declared ([], inst) := ⟨List.forall_mem_nil _, hinst⟩
  exact (hall _ hnone).mono fun r ⟨hlength, hr⟩ => ⟨hlength.trans (Nat.zero_add _), hr⟩

/-! ## Constraints and objectives -/

section Terms

variable {vars : List Var} {inst : Instance}

/-- Entries that are in range have terms over declared variables. -/
lemma terms_settles (hes : ∀ e ∈ es, e.column < vars.length)
    (hvars : ∀ v ∈ vars, inst.declares v = true) :
    Settles (fun _ => False) inst.DeclaresAll (es.mapM (Entry.term vars)) := by
  refine Settles.mapM fun e he => ?_
  rw [Entry.term, List.getElem?_eq_getElem (hes e he)]
  exact hvars _ (List.getElem_mem _)

/-- A comparison of entries that are in range can be added, and adds no variables. -/
lemma addComparison_settles {c : Comparison} (hes : ∀ e ∈ c.entries, e.column < vars.length)
    (hr : Declared (vars, inst)) :
    Settles (fun _ => False) (fun inst' => Declared (vars, inst'))
      (addComparison vars inst c) := by
  refine Settles.bind (terms_settles hes hr.declares) fun terms hterms => ?_
  have hadd := Instance.addConstr_of_declared (c := ⟨terms, c.rel, c.rhs⟩) hterms
  rw [hadd]
  exact ⟨hr.declares, (hr.sound.addConstr _).of_ok hadd⟩

end Terms

/-- A table with valid columns, entries that are in range and a title makes a sound instance, or one
of its columns is refused where it stands. -/
lemma build_settles (settings : Settings) {name : Option String}
    (hname : ∀ n ∈ name, IsTitle n.toList) (hcols : cols.Valid) {constrs : List Comparison}
    (hconstrs : ∀ c ∈ constrs, cols.Covers c.entries) (direction : Direction)
    {objective : List Entry} (hobjective : cols.Covers objective) :
    Settles ReadError.IsRefusal Instance.Sound
      (build settings name cols constrs direction objective) := by
  refine Settles.bind (cols.declareAll_settles settings hcols (Instance.sound_empty hname))
    fun ⟨vars, inst⟩ ⟨hlength, hdeclared⟩ => ?_
  have hlt : ∀ {es : List Entry}, cols.Covers es → ∀ e ∈ es, e.column < vars.length :=
    fun hes e he => hlength ▸ hes e he
  -- nothing can be refused at the place that is none
  refine Settles.mapError (E := fun _ => False) ?_ fun _ he => he.elim
  refine Settles.bind (P := fun inst' => Declared (vars, inst')) ?_ fun inst₁ hinst₁ => ?_
  · refine Settles.foldlM hdeclared fun c hc inst₁ hinst₁ => ?_
    exact addComparison_settles (hlt (hconstrs c hc)) hinst₁
  · refine Settles.bind (terms_settles (hlt hobjective) hinst₁.declares) fun terms hterms => ?_
    have hset := Instance.setObjective_of_declared (o := ⟨direction, terms⟩) hterms
    rw [hset]
    exact (hinst₁.sound.setObjective _).of_ok hset

end LinearInterchange.Table
