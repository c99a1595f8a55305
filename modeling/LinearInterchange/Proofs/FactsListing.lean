import LinearInterchange.Proofs.Listings
import LinearInterchange.Proofs.QuotedNames

/-!
# Listings of facts

The facts of a problem are listed for aspartame: one for each variable, one for each constraint with
its number, one for each term with the number of its constraint, and those of the objective.  What
facts state does not depend on how they are grouped: the terms of a constraint are those with its
number, wherever they stand.

An instance that is written as facts is a listing of its problem (`exists_problem_of_output`).
-/

namespace LinearInterchange.Asp.Facts

open Text Text.Parser Problem OutputFormat

/-- A fact. -/
inductive Fact where
  | var (x : Column)
  | constraint (number : ℕ) (rel : Relation) (rhs : ℤ)
  | term (number : ℕ) (p : Product)
  | objective (sense : Sense)
  | objterm (p : Product)

namespace Fact

/-! ## Writing and reading facts -/

/-- The text of the fact of a variable. -/
def writeVar (x : Column) : String :=
  "var(int," ++ quoted x.name ++ ",range(" ++ toString x.least ++ "," ++ toString x.greatest ++ "))."

/-- The text of the fact of a constraint. -/
def writeConstraint (k : ℕ) (rel : Relation) (rhs : ℤ) : String :=
  "constraint(" ++ toString k ++ "," ++ relationAtom rel ++ "," ++ toString rhs ++ ")."

/-- The text of the fact of a term. -/
def writeTerm (k : ℕ) (p : Product) : String :=
  "term(" ++ toString k ++ "," ++ toString p.factor ++ "," ++ quoted p.name ++ ")."

/-- The text of the fact of the sense. -/
def writeObjective (sense : Sense) : String :=
  "objective(" ++ sense.word ++ ")."

/-- The text of the fact of a term of the objective. -/
def writeObjterm (p : Product) : String :=
  "objterm(" ++ toString p.factor ++ "," ++ quoted p.name ++ ")."

/-- The text of a fact. -/
def write : Fact → String
  | var x => writeVar x
  | constraint k rel rhs => writeConstraint k rel rhs
  | term k p => writeTerm k p
  | objective sense => writeObjective sense
  | objterm p => writeObjterm p

/-- Reads the atom of a relation. -/
def readRelation : Parser Relation :=
  (do literal "le".toList; return .le)
  <|> (do literal "eq".toList; return .eq)
  <|> (do literal "ge".toList; return .ge)

/-- Reads the fact of a variable. -/
def readVar : Parser Fact := do
  literal "var(int,".toList
  let name ← quotedName
  literal ",range(".toList
  let least ← signed
  literal ",".toList
  let greatest ← signed
  literal ")).".toList
  return var ⟨name, least, greatest⟩

/-- Reads the fact of a constraint. -/
def readConstraint : Parser Fact := do
  literal "constraint(".toList
  let k ← number
  literal ",".toList
  let rel ← readRelation
  literal ",".toList
  let rhs ← signed
  literal ").".toList
  return constraint k rel rhs

/-- Reads the fact of a term. -/
def readTerm : Parser Fact := do
  literal "term(".toList
  let k ← number
  literal ",".toList
  let factor ← signed
  literal ",".toList
  let name ← quotedName
  literal ").".toList
  return term k ⟨factor, name⟩

/-- Reads the fact of the sense. -/
def readObjective : Parser Fact := do
  literal "objective(".toList
  let sense ← Sense.read
  literal ").".toList
  return objective sense

/-- Reads the fact of a term of the objective. -/
def readObjterm : Parser Fact := do
  literal "objterm(".toList
  let factor ← signed
  literal ",".toList
  let name ← quotedName
  literal ").".toList
  return objterm ⟨factor, name⟩

/-- Reads a fact. -/
def read : Parser Fact :=
  readVar <|> readConstraint <|> readTerm <|> readObjective <|> readObjterm

/-- An atom is read as its relation. -/
lemma readRelation_append (r : Relation) (rest : List Char) :
    readRelation ((relationAtom r).toList ++ rest) = some (r, rest) := by
  cases r with
  | le => exact orElse_of_eq_some (bind_of_eq_some (literal_append "le".toList rest))
  | eq =>
    refine (orElse_of_eq_none (bind_of_eq_none (literal_eq_none (by decide) rest))).trans ?_
    exact orElse_of_eq_some (bind_of_eq_some (literal_append "eq".toList rest))
  | ge =>
    refine (orElse_of_eq_none (bind_of_eq_none (literal_eq_none (by decide) rest))).trans ?_
    refine (orElse_of_eq_none (bind_of_eq_none (literal_eq_none (by decide) rest))).trans ?_
    exact bind_of_eq_some (literal_append "ge".toList rest)

/-- The fact of a variable is read as it was written. -/
lemma readVar_append (x : Column) (rest : List Char) :
    readVar ((writeVar x).toList ++ rest) = some (var x, rest) := by
  delta writeVar
  simp only [String.toList_append, List.append_assoc]
  rw [readVar, bind_of_eq_some (literal_append _ _), bind_of_eq_some (quotedName_append _ _),
    bind_of_eq_some (literal_append _ _),
    bind_of_eq_some (signed_append _ (stops_append (by decide) _)),
    bind_of_eq_some (literal_append _ _),
    bind_of_eq_some (signed_append _ (stops_append (by decide) _)),
    bind_of_eq_some (literal_append _ _)]
  rfl

/-- The fact of a constraint is read as it was written. -/
lemma readConstraint_append (k : ℕ) (rel : Relation) (rhs : ℤ) (rest : List Char) :
    readConstraint ((writeConstraint k rel rhs).toList ++ rest) =
      some (constraint k rel rhs, rest) := by
  delta writeConstraint
  simp only [String.toList_append, List.append_assoc]
  rw [readConstraint, bind_of_eq_some (literal_append _ _),
    bind_of_eq_some (number_append _ (stops_append (by decide) _)),
    bind_of_eq_some (literal_append _ _), bind_of_eq_some (readRelation_append _ _),
    bind_of_eq_some (literal_append _ _),
    bind_of_eq_some (signed_append _ (stops_append (by decide) _)),
    bind_of_eq_some (literal_append _ _)]
  rfl

/-- The fact of a term is read as it was written. -/
lemma readTerm_append (k : ℕ) (p : Product) (rest : List Char) :
    readTerm ((writeTerm k p).toList ++ rest) = some (term k p, rest) := by
  delta writeTerm
  simp only [String.toList_append, List.append_assoc]
  rw [readTerm, bind_of_eq_some (literal_append _ _),
    bind_of_eq_some (number_append _ (stops_append (by decide) _)),
    bind_of_eq_some (literal_append _ _),
    bind_of_eq_some (signed_append _ (stops_append (by decide) _)),
    bind_of_eq_some (literal_append _ _), bind_of_eq_some (quotedName_append _ _),
    bind_of_eq_some (literal_append _ _)]
  rfl

/-- The fact of the sense is read as it was written. -/
lemma readObjective_append (sense : Sense) (rest : List Char) :
    readObjective ((writeObjective sense).toList ++ rest) = some (objective sense, rest) := by
  delta writeObjective
  simp only [String.toList_append, List.append_assoc]
  rw [readObjective, bind_of_eq_some (literal_append _ _),
    bind_of_eq_some (Sense.read_append _ _), bind_of_eq_some (literal_append _ _)]
  rfl

/-- The fact of a term of the objective is read as it was written. -/
lemma readObjterm_append (p : Product) (rest : List Char) :
    readObjterm ((writeObjterm p).toList ++ rest) = some (objterm p, rest) := by
  delta writeObjterm
  simp only [String.toList_append, List.append_assoc]
  rw [readObjterm, bind_of_eq_some (literal_append _ _),
    bind_of_eq_some (signed_append _ (stops_append (by decide) _)),
    bind_of_eq_some (literal_append _ _), bind_of_eq_some (quotedName_append _ _),
    bind_of_eq_some (literal_append _ _)]
  rfl

/-- What the text of a fact begins with. -/
def opening : Fact → String
  | var _ => "var(int,"
  | constraint _ _ _ => "constraint("
  | term _ _ => "term("
  | objective _ => "objective("
  | objterm _ => "objterm("

/-- The text of a fact begins with its opening. -/
lemma exists_write_eq (f : Fact) :
    ∃ tail, f.write.toList = f.opening.toList ++ tail := by
  cases f <;> dsimp only [write, opening] <;>
    delta writeVar writeConstraint writeTerm writeObjective writeObjterm <;>
    simp only [String.toList_append, List.append_assoc] <;> exact ⟨_, rfl⟩

lemma differ_mark_opening (f : Fact) : differ "% ".toList f.opening.toList = true := by
  cases f <;> rw [opening] <;> decide

/-- A fact is read as it was written. -/
lemma read_append (f : Fact) (rest : List Char) : read (f.write.toList ++ rest) = some (f, rest) := by
  -- the readers of other facts stop within the opening
  have hskip : ∀ {w : List Char} {α : Type} {k : Unit → Parser α},
      differ w f.opening.toList = true → (literal w >>= k) (f.write.toList ++ rest) = none :=
    fun h => bind_of_eq_none (literal_of_opening f.exists_write_eq h rest)
  cases f with
  | var x => exact orElse_of_eq_some (readVar_append x rest)
  | constraint k rel rhs =>
    simp only [opening] at hskip
    refine (orElse_of_eq_none (hskip (by decide))).trans ?_
    exact orElse_of_eq_some (readConstraint_append k rel rhs rest)
  | term k p =>
    simp only [opening] at hskip
    refine (orElse_of_eq_none (hskip (by decide))).trans ?_
    refine (orElse_of_eq_none (hskip (by decide))).trans ?_
    exact orElse_of_eq_some (readTerm_append k p rest)
  | objective sense =>
    simp only [opening] at hskip
    refine (orElse_of_eq_none (hskip (by decide))).trans ?_
    refine (orElse_of_eq_none (hskip (by decide))).trans ?_
    refine (orElse_of_eq_none (hskip (by decide))).trans ?_
    exact orElse_of_eq_some (readObjective_append sense rest)
  | objterm p =>
    simp only [opening] at hskip
    refine (orElse_of_eq_none (hskip (by decide))).trans ?_
    refine (orElse_of_eq_none (hskip (by decide))).trans ?_
    refine (orElse_of_eq_none (hskip (by decide))).trans ?_
    refine (orElse_of_eq_none (hskip (by decide))).trans ?_
    exact readObjterm_append p rest

/-! ## What facts state -/

/-- The variable of a fact. -/
def column? : Fact → Option Column
  | var x => some x
  | _ => none

/-- The number, the relation and the right-hand side of a constraint. -/
def constraint? : Fact → Option (ℕ × Relation × ℤ)
  | constraint k rel rhs => some (k, rel, rhs)
  | _ => none

/-- The term of the constraint with a given number. -/
def term? (k : ℕ) : Fact → Option Product
  | term n p => if n = k then some p else none
  | _ => none

/-- The sense of the objective. -/
def sense? : Fact → Option Sense
  | objective sense => some sense
  | _ => none

/-- The term of the objective. -/
def objterm? : Fact → Option Product
  | objterm p => some p
  | _ => none

end Fact

/-- The problem that facts state.  The terms of a constraint are those with its number. -/
def problem (l : Listing Fact) : Problem where
  name := l.name
  columns := l.statements.filterMap Fact.column?
  rows := (l.statements.filterMap Fact.constraint?).map fun (k, rel, rhs) =>
    ⟨rel, rhs, l.statements.filterMap (Fact.term? k)⟩
  goal := (l.statements.filterMap Fact.sense?).head?.map fun sense =>
    ⟨sense, l.statements.filterMap Fact.objterm?, none⟩

/-- The language of facts. -/
def dialect : Dialect Fact where
  mark := "% "
  Allows _ := True
  write := Fact.write
  read := Fact.read
  problem := problem
  read_write f _ rest := f.read_append ('\n' :: rest)
  read_nil := rfl
  mark_write f rest := literal_of_opening f.exists_write_eq f.differ_mark_opening rest
  mark_nil := comment_nil

/-! ## The facts of a problem -/

/-- The facts of a row with its number. -/
def rowFacts (r : Row) (number : ℕ) : List Fact :=
  .constraint number r.rel r.rhs :: r.products.map (.term number)

/-- The facts of a goal. -/
def goalFacts (g : Goal) : List Fact :=
  .objective g.sense :: g.products.map .objterm

/-- The facts of a problem, with its rows numbered from one on. -/
def listing (p : Problem) : Listing Fact where
  name := p.name
  statements := p.columns.map .var ++ (p.rows.zipIdx 1).flatMap (fun (r, k) => rowFacts r k)
    ++ p.goal.toList.flatMap goalFacts

/-- What a view of facts finds in the facts of a problem. -/
lemma filterMap_listing {α : Type} (view : Fact → Option α) (p : Problem) :
    (listing p).statements.filterMap view =
      p.columns.filterMap (fun x => view (.var x))
        ++ (p.rows.zipIdx 1).flatMap (fun (r, k) => (rowFacts r k).filterMap view)
        ++ p.goal.toList.flatMap (fun g => (goalFacts g).filterMap view) := by
  rw [listing, List.filterMap_append, List.filterMap_append, List.filterMap_map,
    List.filterMap_flatMap, List.filterMap_flatMap]
  rfl

/-- The columns are found in the facts of a problem. -/
lemma columns_listing (p : Problem) :
    (listing p).statements.filterMap Fact.column? = p.columns := by
  simp [filterMap_listing, rowFacts, goalFacts, Fact.column?]

/-- The rows are found in the facts of a problem, without their products. -/
lemma constraints_listing (p : Problem) :
    (listing p).statements.filterMap Fact.constraint? =
      (p.rows.zipIdx 1).map fun (r, k) => (k, r.rel, r.rhs) := by
  have hrow : ∀ r k, (rowFacts r k).filterMap Fact.constraint? = [(k, r.rel, r.rhs)] := by
    intro r k
    simp [rowFacts, Fact.constraint?]
  have hgoal : ∀ g, (goalFacts g).filterMap Fact.constraint? = [] := by
    intro g
    simp [goalFacts, Fact.constraint?, List.filterMap_cons]
  rw [filterMap_listing, List.map_eq_flatMap]
  simp only [hrow, hgoal]
  simp [Fact.constraint?]

/-- Numbered rows give a number to one row only. -/
lemma flatMap_products {rows : List Row} {start k : ℕ} {r : Row} (h : (r, k) ∈ rows.zipIdx start) :
    (rows.zipIdx start).flatMap (fun (s, n) => if n = k then s.products else []) = r.products := by
  induction rows generalizing start with
  | nil => cases h
  | cons s rows ih =>
    rw [List.zipIdx_cons, List.flatMap_cons]
    rw [List.zipIdx_cons, List.mem_cons] at h
    rcases h with h | h
    · -- the numbers of the other rows are greater
      obtain ⟨rfl, rfl⟩ := Prod.mk.inj h
      have hrest : (rows.zipIdx (k + 1)).flatMap
          (fun (s, n) => if n = k then s.products else []) = [] := by
        refine List.flatMap_eq_nil_iff.2 ?_
        rintro ⟨s, n⟩ hs
        exact if_neg (by have := (List.mem_zipIdx hs).1; omega)
      rw [hrest, List.append_nil]
      exact if_pos rfl
    · have hstart : start ≠ k := by
        have := (List.mem_zipIdx h).1
        omega
      rw [ih h]
      simp [hstart]

variable {p : Problem}

/-- The terms with the number of a row are the products of the row. -/
lemma terms_listing {k : ℕ} {r : Row} (h : (r, k) ∈ p.rows.zipIdx 1) :
    (listing p).statements.filterMap (Fact.term? k) = r.products := by
  have hrow : ∀ s n, (rowFacts s n).filterMap (Fact.term? k) =
      if n = k then s.products else [] := by
    intro s n
    by_cases hn : n = k <;> simp [rowFacts, Fact.term?, hn, List.filterMap_cons,
      Function.comp_def]
  have hgoal : ∀ g, (goalFacts g).filterMap (Fact.term? k) = [] := by
    intro g
    simp [goalFacts, Fact.term?]
  rw [filterMap_listing]
  simp only [hrow, hgoal, flatMap_products h]
  simp [Fact.term?]

/-- The facts of a problem state the problem, if its goal needs no column of its own. -/
lemma problem_listing (hgoal : ∀ g ∈ p.goal, g.column = none) : problem (listing p) = p := by
  -- every part of the problem is collected by its own view of the facts
  have hrows : (problem (listing p)).rows = p.rows := by
    rw [problem, constraints_listing, List.map_map]
    calc
      _ = (p.rows.zipIdx 1).map Prod.fst := by
        refine List.map_congr_left ?_
        rintro ⟨r, k⟩ hr
        show (⟨r.rel, r.rhs, _⟩ : Row) = r
        rw [terms_listing hr]
      _ = p.rows := List.zipIdx_map_fst 1 p.rows
  have hsense : (listing p).statements.filterMap Fact.sense? = p.goal.toList.map Goal.sense := by
    have hgoalFacts : ∀ g, (goalFacts g).filterMap Fact.sense? = [g.sense] := by
      intro g
      simp [goalFacts, Fact.sense?]
    rw [filterMap_listing, List.map_eq_flatMap]
    simp [hgoalFacts, rowFacts, Fact.sense?]
  have hobjterms : (listing p).statements.filterMap Fact.objterm? =
      p.goal.toList.flatMap Goal.products := by
    simp [filterMap_listing, rowFacts, goalFacts, Fact.objterm?, List.filterMap_cons,
      Function.comp_def]
  have hgoals : (problem (listing p)).goal = p.goal := by
    rw [problem, hsense, hobjterms]
    cases hg : p.goal with
    | none => rfl
    | some g => simp [← hgoal g hg]
  have hcolumns : (problem (listing p)).columns = p.columns := columns_listing p
  calc
    problem (listing p) = ⟨p.name, p.columns, p.rows, p.goal⟩ := by
      rw [← hrows, ← hgoals, ← hcolumns]
      rfl
    _ = p := rfl

/-! ## Emitted facts -/

open Emit

variable {inst : Instance} {s s' : String} {u : Unit}

/-- The facts of terms with integer coefficients are those of the products that show the terms. -/
lemma gives_terms {ts : List Term} (hts : ∀ t ∈ ts, t.coeff.isInteger = true)
    {f : Term → String → String} {g : Product → Fact}
    (hf : ∀ t name, f t name = (g ⟨t.coeff.truncate.toInt, name⟩).write)
    (h : Gives (ts.forM fun t => do
      let name ← nameOf inst t.var
      line (f t name)) s u s') :
    ∃ ps, List.Forall₂ (Product.Shows inst) ts ps ∧ s' = s ++ dialect.lines (ps.map g) := by
  obtain ⟨ps, hps, rfl⟩ := Gives.of_forM (P := Product.Shows inst)
    (g := fun p => (g p).write ++ "\n") (fun t ht u s s' hterm => by
      obtain ⟨name, s₁, hname, hline⟩ := hterm.of_bind
      obtain ⟨hfound, rfl⟩ := gives_nameOf hname
      exact ⟨_, shows_product (hts t ht) hfound, by rw [hline.of_line, hf]⟩) h
  exact ⟨ps, hps, by rw [Dialect.lines_map]; rfl⟩

/-- The facts of a constraint without fractions are those of a row that shows the constraint. -/
lemma gives_emitConstr {c : LinConstraint} (hc : c.isIntegral = true) {k : ℕ}
    (h : Gives (emitConstr inst c k) s u s') :
    ∃ r, Row.Shows inst c r ∧ s' = s ++ dialect.lines (rowFacts r k) := by
  obtain ⟨_, s₁, hline, hterms⟩ := h.of_bind
  obtain rfl := hline.of_line
  obtain ⟨ps, hps, rfl⟩ := gives_terms (g := .term k)
    (fun t ht => isInteger_of_mem_mergedTerms hc ht) (fun _ _ => rfl) hterms
  refine ⟨_, shows_row hc hps, ?_⟩
  rw [rowFacts, Dialect.lines_cons]
  exact String.append_assoc

/-- The facts of an objective without fractions are those of a goal that shows the objective. -/
lemma gives_emitObjective (ho : inst.objective.isIntegral = true)
    (hd : directionOf .facts inst.objective ≠ .unspecified)
    (h : Gives (emitObjective inst (directionOf .facts inst.objective)) s u s') :
    ∃ g : Goal, g.Shows .facts inst ∧ s' = s ++ dialect.lines (goalFacts g) := by
  obtain ⟨_, s₁, hline, hterms⟩ := h.of_bind
  obtain rfl := hline.of_line
  obtain ⟨ps, hps, rfl⟩ := gives_terms (g := .objterm)
    (Term.allIntegers_iff.1 ho) (fun _ _ => rfl) hterms
  refine ⟨⟨.ofDirection (directionOf .facts inst.objective), ps, none⟩,
    ⟨direction_ofDirection hd, hps, rfl⟩, ?_⟩
  rw [goalFacts, Dialect.lines_cons, directionWord_eq]
  exact String.append_assoc

/-- A relation of numbered elements that keeps the numbers is one of the elements. -/
lemma exists_of_forall₂_zipIdx {α β : Type} {P : α → β → Prop} {as : List α} {start : ℕ}
    {bs : List (β × ℕ)}
    (h : List.Forall₂ (fun a b => P a.1 b.1 ∧ b.2 = a.2) (as.zipIdx start) bs) :
    ∃ cs, List.Forall₂ P as cs ∧ bs = cs.zipIdx start := by
  induction as generalizing start bs with
  | nil =>
    cases h
    exact ⟨[], .nil, rfl⟩
  | cons a as ih =>
    rw [List.zipIdx_cons, List.forall₂_cons_left_iff] at h
    obtain ⟨⟨b, k⟩, bs, ⟨hb, rfl⟩, hbs, rfl⟩ := h
    obtain ⟨cs, hcs, rfl⟩ := ih hbs
    exact ⟨b :: cs, .cons hb hcs, rfl⟩

/-- The facts of constraints without fractions are those of rows with the same numbers. -/
lemma gives_constrs (hcs : ∀ c ∈ inst.constrs, c.isIntegral = true)
    (h : Gives ((numbered inst).forM fun (c, k) => emitConstr inst c k) s u s') :
    ∃ rows, List.Forall₂ (Row.Shows inst) inst.constrs rows ∧
      s' = s ++ dialect.lines ((rows.zipIdx 1).flatMap fun (r, k) => rowFacts r k) := by
  obtain ⟨rs, hrs, rfl⟩ := Gives.of_forM
    (P := fun (c : LinConstraint × ℕ) (r : Row × ℕ) => Row.Shows inst c.1 r.1 ∧ r.2 = c.2)
    (g := fun r => dialect.lines (rowFacts r.1 r.2)) (fun c hc u s s' hemit => by
      obtain ⟨r, hr, hlines⟩ := gives_emitConstr (hcs c.1 (List.fst_mem_of_mem_zipIdx hc)) hemit
      exact ⟨(r, c.2), ⟨hr, rfl⟩, hlines⟩) h
  obtain ⟨rows, hrows, rfl⟩ := exists_of_forall₂_zipIdx hrs
  exact ⟨rows, hrows, by rw [Dialect.lines_flatMap]⟩

/-- The facts of an instance that is written are a listing of its problem. -/
lemma exists_problem_of_output {text : String} (h : (encode inst).output = (.ok (), text)) :
    ∃ p : Problem, p.Shows .facts inst ∧ dialect.text (listing p) = text := by
  obtain ⟨_, s₁, harity, h⟩ := (gives_of_output h).of_bind
  obtain rfl := gives_checkArity harity
  obtain ⟨_, s₂, hintegral, h⟩ := h.of_bind
  obtain ⟨hcs, ho, rfl⟩ := gives_checkIntegral hintegral
  obtain ⟨d, s₃, hd, h⟩ := h.of_bind
  obtain ⟨hnone, hsome, rfl⟩ := gives_objectiveDirection (f := .facts) (by decide) hd
  obtain ⟨_, s₄, hname, h⟩ := h.of_bind
  obtain rfl := dialect.gives_nameLine hname
  obtain ⟨_, s₅, hvars, h⟩ := h.of_bind
  obtain rfl := dialect.gives_lines (g := fun x => .var (Column.ofVariable x)) (fun _ => rfl) hvars
  obtain ⟨_, s₆, hconstrs, hgoal⟩ := h.of_bind
  obtain ⟨rows, hrows, rfl⟩ := gives_constrs hcs hconstrs
  obtain ⟨goal, hterms, hshows, rfl⟩ := exists_goal_of_gives (f := .facts)
    (fun g => dialect.lines (goalFacts g)) hnone
    (fun a ha => by
      obtain ⟨hne, rfl, hknown⟩ := hsome a ha
      exact ⟨hne, gives_emitObjective ho hknown⟩) hgoal
  refine ⟨⟨inst.name, inst.vars.map Column.ofVariable, rows, goal⟩,
    ⟨rfl, rfl, hrows, hterms, hshows⟩, ?_⟩
  rw [Dialect.text, listing, Dialect.lines_append, Dialect.lines_append, List.map_map,
    dialect.lines_flatMap goalFacts]
  simp only [String.append_assoc, String.empty_append]
  rfl

/-- The facts of a problem can be read back if its name is a single line. -/
lemma isListing_listing {p : Problem} (h : ∀ name ∈ p.name, '\n' ∉ name.toList) :
    dialect.IsListing (listing p) where
  name_line := h
  allows _ _ := trivial

end LinearInterchange.Asp.Facts
