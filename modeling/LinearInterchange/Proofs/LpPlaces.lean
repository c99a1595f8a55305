import LinearInterchange.Proofs.LpReader

/-!
# Places in the LP format

The reader of the LP format keeps the place of every token and of every column, but only in order to
tell it in an error.  So the places can be moved by any function: with moved places it goes through
the same states and comes to the same end, and the places in its errors are the moved ones.  Each
function of the reader has one lemma that says so, `..._moved`.

Moving all places to one and the same forgets them, and moving places that are not of a kind shows
that the reader tells no other places than it was given.
-/

namespace LinearInterchange

variable {α β γ δ ε : Type} (g : Position → Position)

/-! ## Moving places -/

/-- An error that is told of another place. -/
def ReadError.moved : ReadError → ReadError
  | .refused pos refusal => .refused (g pos) refusal
  | .system fault => .system fault

/-- An outcome of which the places are moved, in an error by `g` and in a value by `f`. -/
def moved (f : α → β) (x : Except ReadError α) : Except ReadError β :=
  (x.mapError (.moved g)).map f

variable {g}

@[simp] lemma moved_ok (f : α → β) (a : α) : moved g f (.ok a) = .ok (f a) := rfl

@[simp] lemma moved_error (f : α → β) (e : ReadError) : moved g f (.error e) = .error (e.moved g) :=
  rfl

/-- A sequence of two computations is moved if both are. -/
lemma moved_bind {x : Except ReadError α} {x' : Except ReadError β} {f : α → β} {h : γ → δ}
    {k : α → Except ReadError γ} {k' : β → Except ReadError δ} (hx : x' = moved g f x)
    (hk : ∀ a, k' (f a) = moved g h (k a)) : (x' >>= k') = moved g h (x >>= k) := by
  rw [hx]
  cases x with
  | error e => rfl
  | ok a => exact hk a

/-- A computation that is mapped is moved if it is. -/
lemma moved_map {x : Except ReadError α} {x' : Except ReadError β} {f : α → β} {h : γ → δ}
    {k : α → γ} {k' : β → δ} (hx : x' = moved g f x) (hk : ∀ a, k' (f a) = h (k a)) :
    x'.map k' = moved g h (x.map k) := by
  rw [hx]
  cases x with
  | error e => rfl
  | ok a => exact congrArg Except.ok (hk a)

/-- A loop over a list is moved if its steps are. -/
lemma moved_foldlM {f : α → β} {step : α → γ → Except ReadError α}
    {step' : β → δ → Except ReadError β} {l : List γ} {l' : List δ} {h : γ → δ} (hl : l' = l.map h)
    (hstep : ∀ a c, step' (f a) (h c) = moved g f (step a c)) (a : α) :
    l'.foldlM step' (f a) = moved g f (l.foldlM step a) := by
  subst hl
  induction l generalizing a with
  | nil => rfl
  | cons c l ih =>
    rw [List.map_cons, List.foldlM_cons, List.foldlM_cons]
    exact moved_bind (hstep a c) ih

lemma report_moved (pos : Position) (refusal : ε → Refusal) (x : Except ε α) :
    (g pos).report refusal x = moved g id (pos.report refusal x) := by
  cases x <;> rfl

/-! ## Columns -/

namespace Table

/-- A column that appears in another place. -/
def Column.moved (g : Position → Position) (c : Column) : Column :=
  { c with pos := g c.pos }

/-- Columns that appear in other places. -/
def Columns.moved (g : Position → Position) (cols : Columns) : Columns :=
  cols.map (Column.moved g)

namespace Columns

lemma number?_moved (cols : Columns) (name : String) :
    (cols.moved g).number? name = cols.number? name := by
  rw [number?, moved, List.findIdx?_map]
  rfl

/-- A column that is new appears in the moved place. -/
lemma ensure_moved (cols : Columns) (name : String) (pos : Position) :
    (cols.moved g).ensure name (g pos) =
      ((cols.ensure name pos).1, (cols.ensure name pos).2.moved g) := by
  rw [ensure, number?_moved, ensure]
  cases cols.number? name with
  | some n => rfl
  | none => simp [moved, Column.moved]

/-- Columns are changed alike by a change that leaves their places alone. -/
lemma update_moved {f : Column → Column} (hf : ∀ c, f (c.moved g) = (f c).moved g) (cols : Columns)
    (n : ℕ) : (cols.moved g).update n f = (cols.update n f).map (moved g) := by
  have hlength : (cols.moved g).length = cols.length := List.length_map _
  have hmodify : (cols.moved g).modify n f = moved g (cols.modify n f) := by
    apply List.ext_getElem?
    intro i
    simp only [moved, List.getElem?_modify, List.getElem?_map]
    cases cols[i]? with
    | none => rfl
    | some c =>
      by_cases hi : n = i
      · simp [hi, hf]
      · simp [hi]
  unfold update
  rw [hlength, hmodify]
  split <;> rfl

end Columns

lemma Column.declare_moved (settings : Settings) (declared : List Var × Instance) (c : Column) :
    (c.moved g).declare settings declared =
      LinearInterchange.moved g id (c.declare settings declared) :=
  report_moved c.pos _ _

/-- A table makes the same instance wherever its columns appear. -/
lemma build_moved (settings : Settings) (name : Option String) (cols : Columns)
    (constrs : List Comparison) (direction : Direction) (objective : List Entry)
    (hg : g ⟨0, 0⟩ = ⟨0, 0⟩) :
    build settings name (cols.moved g) constrs direction objective =
      LinearInterchange.moved g id (build settings name cols constrs direction objective) := by
  have hdeclare : (cols.moved g).declareAll settings { name } =
      LinearInterchange.moved g id (cols.declareAll settings { name }) :=
    moved_foldlM (f := id) (h := Column.moved g) rfl (fun r c => c.declare_moved settings r) _
  unfold build
  refine moved_bind hdeclare fun r => ?_
  have hreport := report_moved (g := g) ⟨0, 0⟩ ColumnFault.refusal (do
    let inst ← constrs.foldlM (addComparison r.1) r.2
    let terms ← objective.mapM (Entry.term r.1)
    (inst.setObjective ⟨direction, terms⟩).mapError .badVariable)
  rw [hg] at hreport
  exact hreport

end Table

/-! ## Tokens -/

namespace Lp

open Text Table

/-- Tokens that stand in other places. -/
def Tokens.moved (g : Position → Position) (ts : Tokens) : Tokens :=
  ts.map fun t => (t.1, g t.2)

/-- What a part of a statement amounts to, in other places. -/
def Parsed.moved (g : Position → Position) (p : Parsed α) : Parsed α :=
  ⟨p.value, p.cols.moved g, p.rest.moved g⟩

variable {ts : Tokens} {cols : Columns} {pos ending : Position}

lemma readCoeff_moved (pos : Position) (token : List Char) :
    readCoeff (g pos) token = moved g id (readCoeff pos token) :=
  report_moved pos _ _

namespace Tokens

lemma pos_moved (ts : Tokens) (ending : Position) :
    (ts.moved g).pos (g ending) = g (ts.pos ending) := by
  cases ts <;> rfl

lemma labelled_moved (ts : Tokens) : (ts.moved g).labelled = ts.labelled := by
  match ts with
  | [] => rfl
  | [(t, p)] => cases t <;> rfl
  | (t, p) :: (t', p') :: ts => cases t <;> cases t' <;> rfl

/-- A label is left out in any place. -/
lemma dropLabel_moved (ts : Tokens) : (ts.moved g).dropLabel = ts.dropLabel.moved g := by
  rw [dropLabel, labelled_moved, dropLabel]
  split
  · exact List.map_drop.symm
  · rfl

/-- Signs are read in any place. -/
lemma signs_moved (ts : Tokens) : (ts.moved g).signs = (ts.signs.1, moved g ts.signs.2) := by
  induction ts with
  | nil => rfl
  | cons t ts ih =>
    obtain ⟨t, p⟩ := t
    cases t with
    | sign minus =>
      show (minus != (signs (moved g ts)).1, (signs (moved g ts)).2) = _
      rw [ih]
      rfl
    | _ => rfl

/-- A coefficient at the front is read in any place. -/
lemma coeff_moved (ts : Tokens) :
    (ts.moved g).coeff = (LinearInterchange.moved g id ts.coeff.1, moved g ts.coeff.2) := by
  match ts with
  | [] => rfl
  | (t, p) :: ts =>
    cases t with
    | num n => exact congrArg (·, moved g ts) (readCoeff_moved p n)
    | _ => rfl

/-- Terms are at their end in any place. -/
lemma noTerm_moved (ts : Tokens) : (ts.moved g).noTerm = ts.noTerm := by
  match ts with
  | [] => rfl
  | [(t, p)] => cases t <;> rfl
  | (t, p) :: (t', p') :: ts => cases t <;> cases t' <;> rfl

end Tokens

/-! ## Statements -/

/-- A term is read in any place. -/
lemma readTerm_moved (ending : Position) (cols : Columns) (ts : Tokens) :
    readTerm (g ending) (cols.moved g) (ts.moved g) =
      moved g (Parsed.moved g) (readTerm ending cols ts) := by
  unfold readTerm
  simp only [Tokens.signs_moved, Tokens.coeff_moved, Tokens.pos_moved]
  cases (Tokens.coeff ts.signs.2).1 with
  | error e => rfl
  | ok c =>
    simp only [moved_ok, id_eq]
    cases (Tokens.coeff ts.signs.2).2 with
    | nil => rfl
    | cons t rest =>
      obtain ⟨t, p⟩ := t
      cases t with
      | ident name =>
        show Except.ok _ = Except.ok _
        rw [Columns.ensure_moved]
        rfl
      | _ => rfl

/-- Terms are a term and further terms, unless they are at their end. -/
lemma readTerms_eq (ending : Position) (cols : Columns) (ts : Tokens) :
    readTerms ending cols ts =
      if ts.noTerm then .ok ⟨[], cols, ts⟩
      else readTerm ending cols ts >>= fun t =>
        (readTerms ending t.cols t.rest).map fun p => { p with value := t.value :: p.value } := by
  rw [readTerms]
  split
  · rfl
  · split
    next e he => rw [he]; rfl
    next t ht => rw [ht]; rfl

/-- Terms are read in any place. -/
lemma readTerms_moved (ending : Position) (cols : Columns) (ts : Tokens) :
    readTerms (g ending) (cols.moved g) (ts.moved g) =
      moved g (Parsed.moved g) (readTerms ending cols ts) := by
  fun_induction readTerms ending cols ts with
  | case1 cols ts hnone =>
    rw [readTerms_eq, Tokens.noTerm_moved, if_pos hnone]
    rfl
  | case2 cols ts hterm e he =>
    rw [readTerms_eq, Tokens.noTerm_moved, if_neg hterm, readTerm_moved, he]
    rfl
  | case3 cols ts hterm t ht ih =>
    rw [readTerms_eq, Tokens.noTerm_moved, if_neg hterm, readTerm_moved, ht]
    exact moved_map ih fun p => rfl

/-- An objective is read in any place. -/
lemma readObjective_moved (ending : Position) (cols : Columns) (ts : Tokens) :
    readObjective (g ending) (cols.moved g) (ts.moved g) =
      moved g (fun r => (r.1, r.2.moved g)) (readObjective ending cols ts) := by
  unfold readObjective
  rw [Tokens.dropLabel_moved]
  refine moved_bind (readTerms_moved ending cols ts.dropLabel) fun p => ?_
  have hempty : (p.rest.moved g).isEmpty = p.rest.isEmpty := List.isEmpty_map
  simp only [Parsed.moved, hempty]
  split
  · rfl
  · rw [Tokens.pos_moved]
    rfl

/-- What follows the terms of a constraint is read in any place. -/
lemma readComparison_moved (ending : Position) (entries : List Entry) (ts : Tokens) :
    readComparison (g ending) entries (ts.moved g) =
      moved g (fun r => (r.1, r.2.moved g)) (readComparison ending entries ts) := by
  cases ts with
  | nil => rfl
  | cons t ts =>
    obtain ⟨t, p⟩ := t
    cases t with
    | rel r =>
      have hcons : Tokens.moved g ((.rel r, p) :: ts) = (.rel r, g p) :: Tokens.moved g ts := rfl
      rw [hcons, readComparison, readComparison, Tokens.signs_moved, Tokens.pos_moved]
      obtain ⟨minus, rest⟩ := Tokens.signs ts
      cases rest with
      | nil => rfl
      | cons t rest =>
        obtain ⟨t, q⟩ := t
        cases t with
        | num n => exact moved_map (readCoeff_moved _ n) fun c => rfl
        | _ => rfl
    | _ => rfl

/-- Constraints are terms with what follows them and further constraints, unless they are at their
end. -/
lemma readConstraints_eq (ending : Position) (cols : Columns) (ts : Tokens) :
    readConstraints ending cols ts =
      if ts.isEmpty then .ok ([], cols)
      else readTerms ending cols ts.dropLabel >>= fun p =>
        readComparison ending p.value p.rest >>= fun c =>
          (readConstraints ending p.cols c.2).map fun r => (c.1 :: r.1, r.2) := by
  rw [readConstraints]
  split
  · rfl
  · split
    next e he => rw [he]; rfl
    next p hp =>
      rw [hp]
      show _ = readComparison ending p.value p.rest >>= _
      split
      next e he => rw [he]; rfl
      next c rest hc => rw [hc]; rfl

/-- Constraints are read in any place. -/
lemma readConstraints_moved (ending : Position) (cols : Columns) (ts : Tokens) :
    readConstraints (g ending) (cols.moved g) (ts.moved g) =
      moved g (fun r => (r.1, r.2.moved g)) (readConstraints ending cols ts) := by
  have hempty : ∀ ts : Tokens, (ts.moved g).isEmpty = ts.isEmpty := fun ts => List.isEmpty_map
  have hrest : ∀ (p : Parsed (List Entry)) (k : Comparison × Tokens →
      Except ReadError (List Comparison × Columns)),
      readComparison (g ending) (p.moved g).value (p.moved g).rest >>= k =
        moved g (fun r => (r.1, r.2.moved g)) (readComparison ending p.value p.rest) >>= k :=
    fun p k => congrArg (· >>= k) (readComparison_moved ending p.value p.rest)
  fun_induction readConstraints ending cols ts with
  | case1 cols ts hnone =>
    rw [readConstraints_eq, hempty, if_pos hnone]
    rfl
  | case2 cols ts hsome e he =>
    rw [readConstraints_eq, hempty, if_neg hsome, Tokens.dropLabel_moved, readTerms_moved, he]
    rfl
  | case3 cols ts hsome p hp e he =>
    rw [readConstraints_eq, hempty, if_neg hsome, Tokens.dropLabel_moved, readTerms_moved, hp]
    refine (hrest p _).trans ?_
    rw [he]
    rfl
  | case4 cols ts hsome p hp c rest hc ih =>
    rw [readConstraints_eq, hempty, if_neg hsome, Tokens.dropLabel_moved, readTerms_moved, hp]
    refine (hrest p _).trans ?_
    rw [hc]
    exact moved_map ih fun r => rfl

/-! ## Bounds -/

/-- The value of a bound is read in any place. -/
lemma readBoundValue_moved (pos : Position) (minus : Bool) (t : Token) :
    readBoundValue (g pos) minus t = moved g id (readBoundValue pos minus t) := by
  cases t with
  | num n => exact moved_map (readCoeff_moved pos n) fun c => rfl
  | ident word =>
    rw [readBoundValue, readBoundValue]
    split <;> rfl
  | _ => rfl

/-- A bound is read in any place. -/
lemma readBound_moved (pos : Position) (ts : List Token) :
    readBound (g pos) ts = moved g id (readBound pos ts) := by
  unfold readBound
  split
  · split <;> rfl
  · refine moved_bind (readBoundValue_moved pos _ _) fun lower => ?_
    exact moved_bind (readBoundValue_moved pos _ _) fun upper => rfl
  · split
    · split
      · exact moved_bind (readBoundValue_moved pos _ _) fun value => rfl
      · rfl
    · exact moved_bind (readBoundValue_moved pos _ _) fun value => rfl
  · exact moved_bind (readBoundValue_moved pos _ _) fun value => rfl
  · rfl

/-- What a bound does to a column it does wherever the column appears. -/
lemma readBound_commutes (pos : Position) (ts : List Token) :
    Settles (fun _ => True) (fun b : Bound => ∀ c, b.2 (c.moved g) = (b.2 c).moved g)
      (readBound pos ts) := by
  have hright : ∀ value r c, boundRight value r (Column.moved g c) =
      (boundRight value r c).moved g := by
    intro value r c
    cases r <;> rfl
  have hleft : ∀ value r c, boundLeft value r (Column.moved g c) =
      (boundLeft value r c).moved g := by
    intro value r c
    cases r <;> rfl
  unfold readBound
  split
  · split
    · exact fun c => rfl
    · exact True.intro
  · exact Settles.after fun lower => Settles.after fun upper => fun c => rfl
  · split
    · split
      · exact Settles.after fun value => hleft value _
      · exact True.intro
    · exact Settles.after fun value => hright value _
  · exact Settles.after fun value => hleft value _
  · exact True.intro

/-! ## Lines -/

/-- What was read of a file, in other places. -/
def Model.moved (g : Position → Position) (m : Model) : Model :=
  { m with cols := m.cols.moved g, pending := m.pending.moved g }

namespace Model

variable {m : Model}

/-- The tokens of a section are read in any place. -/
lemma flush_moved (m : Model) (ending : Position) :
    (m.moved g).flush (g ending) = LinearInterchange.moved g (moved g) (m.flush ending) := by
  obtain ⟨part, direction, objective, constrs, cols, pending⟩ := m
  cases part with
  | objective => exact moved_bind (readObjective_moved ending cols pending) fun r => rfl
  | constraints => exact moved_bind (readConstraints_moved ending cols pending) fun r => rfl
  | _ => rfl

/-- A section begins in any place. -/
lemma enter_moved (m : Model) (pos : Position) (part : Section) (direction : Option Direction) :
    (m.moved g).enter (g pos) part direction =
      LinearInterchange.moved g (moved g) (m.enter pos part direction) := by
  unfold enter
  refine moved_bind (flush_moved m pos) fun m' => ?_
  show (if part = .objective then
      if m'.part ≠ .preamble then refuse (g pos) .lateObjective
      else return { m'.moved g with part, direction := direction.getD .unspecified }
    else return { m'.moved g with part }) = _
  split
  · split <;> rfl
  · rfl

/-- The column of a name is changed in any place. -/
lemma changeColumn_moved {f : Column → Column} (hf : ∀ c, f (c.moved g) = (f c).moved g) (m : Model)
    (pos : Position) (name : List Char) :
    (m.moved g).changeColumn (g pos) name f =
      LinearInterchange.moved g (moved g) (m.changeColumn pos name f) := by
  unfold changeColumn
  rw [show (m.moved g).cols = m.cols.moved g from rfl, Columns.ensure_moved]
  generalize m.cols.ensure (String.ofList name) pos = r
  obtain ⟨n, cols⟩ := r
  refine moved_bind (f := Columns.moved g) ?_ fun cols => rfl
  show (g pos).report Refusal.defect ((cols.moved g).update n f) = _
  rw [Columns.update_moved hf]
  cases cols.update n f <;> rfl

/-- A name is read in any place. -/
lemma addName_moved (m : Model) (pos : Position) (t : Token) :
    (m.moved g).addName (g pos) t = LinearInterchange.moved g (moved g) (m.addName pos t) := by
  cases t with
  | ident name =>
    refine changeColumn_moved (fun c => ?_) m pos name
    show (if m.part = .binary then _ else _) = Column.moved g (if m.part = .binary then _ else _)
    split <;> rfl
  | _ => rfl

/-- Text that is no keyword is read in any place. -/
lemma addTokens_moved (m : Model) (pos : Position) (cs : List Char) :
    (m.moved g).addTokens (g pos) cs =
      LinearInterchange.moved g (moved g) (m.addTokens pos cs) := by
  unfold addTokens
  split
  · rfl
  · cases Token.scan cs with
    | error text => rfl
    | ok ts =>
      have hkept : (m.pending ++ ts.map fun t => (t, pos)).moved g =
          m.pending.moved g ++ ts.map fun t => (t, g pos) := by
        simp [Tokens.moved]
      have hnames : ts.foldlM (addName (g pos)) (m.moved g) =
          LinearInterchange.moved g (moved g) (ts.foldlM (addName pos) m) :=
        moved_foldlM (h := id) (List.map_id ts).symm (fun m t => m.addName_moved pos t) m
      obtain ⟨part, direction, objective, constrs, cols, pending⟩ := m
      -- tokens that are kept are moved with their places, others are used up at once
      cases part with
      | objective => exact congrArg (fun p => Except.ok (Model.mk _ _ _ _ _ p)) hkept.symm
      | constraints => exact congrArg (fun p => Except.ok (Model.mk _ _ _ _ _ p)) hkept.symm
      | bounds =>
        have hcommutes := readBound_commutes (g := g) pos ts
        have hbound := readBound_moved (g := g) pos ts
        show (readBound (g pos) ts >>= fun b => changeColumn (g pos) _ b.1 b.2) =
          LinearInterchange.moved g (moved g) (readBound pos ts >>= fun b =>
            changeColumn pos _ b.1 b.2)
        rw [hbound]
        cases hread : readBound pos ts with
        | error e => rfl
        | ok b => exact changeColumn_moved (hcommutes.of_ok hread) _ pos b.1
      | general => exact hnames
      | binary => exact hnames
      | _ => rfl

/-- A line is read in any place. -/
lemma addText_moved (m : Model) (pos : Position) (text : String) :
    (m.moved g).addText (g pos) text =
      LinearInterchange.moved g (moved g) (m.addText pos text) := by
  unfold addText
  refine moved_bind (report_moved pos _ _) fun r => ?_
  cases r with
  | none => exact addTokens_moved m pos _
  | some r =>
    obtain ⟨part, direction, rest⟩ := r
    refine moved_bind (enter_moved m pos part direction) fun m' => ?_
    split
    · rfl
    · exact addTokens_moved m' pos _

end Model

end Lp

end LinearInterchange
