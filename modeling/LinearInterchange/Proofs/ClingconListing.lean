import LinearInterchange.Proofs.ExchangeLine
import LinearInterchange.Proofs.Listings
import LinearInterchange.Proofs.QuotedNames

/-!
# Listings for clingcon

A program for clingcon has a statement for each domain, for each comparison of a sum, and for the
sum that is optimised.  Sums are separated products, and a sum without products is written as zero.

An instance that is written for clingcon is a listing of its problem (`exists_problem_of_output`).
-/

namespace LinearInterchange.Asp.Clingcon

open Text Text.Parser Problem OutputFormat

/-- A statement of a program. -/
inductive Statement where
  | dom (x : Column)
  | sum (r : Row)
  | optimize (sense : Sense) (products : List Product)

/-! ## Sums -/

/-- The text of a product. -/
def writeProduct (p : Product) : String :=
  toString p.factor ++ "*" ++ quoted p.name

/-- The text of a sum. -/
def writeSum : List Product → String
  | [] => "0"
  | p :: ps => writeProduct p ++ String.join (ps.map fun q => "; " ++ writeProduct q)

/-- Reads a product. -/
def readProduct : Parser Product := do
  let factor ← signed
  literal "*".toList
  let name ← quotedName
  return ⟨factor, name⟩

/-- Reads a product behind another one. -/
def readNext : Parser Product := do
  literal "; ".toList
  readProduct

/-- Reads the products of a sum. -/
def readProducts : Parser (List Product) := do
  let p ← readProduct
  let ps ← many readNext
  return p :: ps

/-- Reads a sum. -/
def readSum : Parser (List Product) :=
  readProducts <|> (do literal "0".toList; return [])

/-- A product is read as it was written. -/
lemma readProduct_append (p : Product) (rest : List Char) :
    readProduct ((writeProduct p).toList ++ rest) = some (p, rest) := by
  delta writeProduct
  simp only [String.toList_append, List.append_assoc]
  rw [readProduct, bind_of_eq_some (signed_append _ (stops_append (by decide) _)),
    bind_of_eq_some (literal_append _ _), bind_of_eq_some (quotedName_append _ _)]
  rfl

/-- Products behind others are read up to a blank. -/
lemma many_readNext (ps : List Product) (rest : List Char) :
    many readNext ((String.join (ps.map fun q => "; " ++ writeProduct q)).toList ++ ' ' :: rest) =
      some (ps, ' ' :: rest) := by
  induction ps with
  | nil => exact many_of_eq_none (bind_of_eq_none (literal_eq_none (v := [' ']) (by decide) rest))
  | cons p ps ih =>
    rw [List.map_cons, String.join_cons, String.toList_append, String.toList_append,
      List.append_assoc, List.append_assoc]
    refine many_of_eq_some ?_ ?_ ih
    · rw [readNext, bind_of_eq_some (literal_append _ _), readProduct_append]
    · have hblank : 0 < "; ".toList.length := by decide
      simp only [List.length_append]
      omega

/-- A sum is read as it was written, up to a blank. -/
lemma readSum_append (ps : List Product) {rest : List Char} (h : rest.head? = some ' ') :
    readSum ((writeSum ps).toList ++ rest) = some (ps, rest) := by
  obtain ⟨rest, rfl⟩ := List.head?_eq_some_iff.1 h
  cases ps with
  | nil =>
    -- a zero is an integer too, but no product
    have hzero : signed ("0".toList ++ ' ' :: rest) = some (0, ' ' :: rest) :=
      signed_append 0 (stops_cons (by decide))
    have hproduct : readProducts ("0".toList ++ ' ' :: rest) = none := by
      refine bind_of_eq_none ?_
      rw [readProduct, bind_of_eq_some hzero]
      exact bind_of_eq_none (literal_eq_none (v := [' ']) (by decide) rest)
    rw [writeSum, readSum, orElse_of_eq_none hproduct, bind_of_eq_some (literal_append _ _)]
    rfl
  | cons p ps =>
    refine orElse_of_eq_some ?_
    rw [writeSum, String.toList_append, List.append_assoc, readProducts,
      bind_of_eq_some (readProduct_append _ _), bind_of_eq_some (many_readNext _ _)]
    rfl

/-! ## Writing and reading statements -/

namespace Statement

/-- The text of a domain. -/
def writeDom (x : Column) : String :=
  "&dom\x7b" ++ toString x.least ++ ".." ++ toString x.greatest ++ "\x7d = " ++ quoted x.name ++ "."

/-- The text of a comparison. -/
def writeComparison (r : Row) : String :=
  "&sum\x7b " ++ writeSum r.products ++ " \x7d " ++ r.rel.symbol ++ " " ++ toString r.rhs ++ "."

/-- The text of a sum that is optimised. -/
def writeOptimize (sense : Sense) (ps : List Product) : String :=
  "&" ++ sense.word ++ "\x7b " ++ writeSum ps ++ " \x7d."

/-- The text of a statement. -/
def write : Statement → String
  | dom x => writeDom x
  | sum r => writeComparison r
  | optimize sense ps => writeOptimize sense ps

/-- Reads a domain. -/
def readDom : Parser Statement := do
  literal "&dom\x7b".toList
  let least ← signed
  literal "..".toList
  let greatest ← signed
  literal "\x7d = ".toList
  let name ← quotedName
  literal ".".toList
  return dom ⟨name, least, greatest⟩

/-- Reads a comparison. -/
def readComparison : Parser Statement := do
  literal "&sum\x7b ".toList
  let products ← readSum
  literal " \x7d ".toList
  let rel ← Exchange.Line.relationText
  literal " ".toList
  let rhs ← signed
  literal ".".toList
  return sum ⟨rel, rhs, products⟩

/-- Reads a sum that is optimised. -/
def readOptimize : Parser Statement := do
  literal "&".toList
  let sense ← Sense.read
  literal "\x7b ".toList
  let products ← readSum
  literal " \x7d.".toList
  return optimize sense products

/-- Reads a statement. -/
def read : Parser Statement :=
  readDom <|> readComparison <|> readOptimize

/-- A domain is read as it was written. -/
lemma readDom_append (x : Column) (rest : List Char) :
    readDom ((writeDom x).toList ++ rest) = some (dom x, rest) := by
  delta writeDom
  simp only [String.toList_append, List.append_assoc]
  rw [readDom, bind_of_eq_some (literal_append _ _),
    bind_of_eq_some (signed_append _ (stops_append (by decide) _)),
    bind_of_eq_some (literal_append _ _),
    bind_of_eq_some (signed_append _ (stops_append (by decide) _)),
    bind_of_eq_some (literal_append _ _), bind_of_eq_some (quotedName_append _ _),
    bind_of_eq_some (literal_append _ _)]
  rfl

/-- A comparison is read as it was written. -/
lemma readComparison_append (r : Row) (rest : List Char) :
    readComparison ((writeComparison r).toList ++ rest) = some (sum r, rest) := by
  delta writeComparison
  simp only [String.toList_append, List.append_assoc]
  rw [readComparison, bind_of_eq_some (literal_append _ _),
    bind_of_eq_some (readSum_append _ (by rfl)), bind_of_eq_some (literal_append _ _),
    bind_of_eq_some (Exchange.Line.relationText_append _ _), bind_of_eq_some (literal_append _ _),
    bind_of_eq_some (signed_append _ (stops_append (by decide) _)),
    bind_of_eq_some (literal_append _ _)]
  rfl

/-- A sum that is optimised is read as it was written. -/
lemma readOptimize_append (sense : Sense) (ps : List Product) (rest : List Char) :
    readOptimize ((writeOptimize sense ps).toList ++ rest) = some (optimize sense ps, rest) := by
  delta writeOptimize
  simp only [String.toList_append, List.append_assoc]
  rw [readOptimize, bind_of_eq_some (literal_append _ _),
    bind_of_eq_some (Sense.read_append _ _), bind_of_eq_some (literal_append _ _),
    bind_of_eq_some (readSum_append _ (by rfl)), bind_of_eq_some (literal_append _ _)]
  rfl

/-- What the text of a statement begins with. -/
def opening : Statement → String
  | dom _ => "&dom\x7b"
  | sum _ => "&sum\x7b "
  | optimize sense _ => "&" ++ sense.word

/-- The text of a statement begins with its opening. -/
lemma exists_write_eq (s : Statement) :
    ∃ tail, s.write.toList = s.opening.toList ++ tail := by
  cases s <;> dsimp only [write, opening] <;>
    delta writeDom writeComparison writeOptimize <;>
    simp only [String.toList_append, List.append_assoc] <;> exact ⟨_, rfl⟩

/-- No statement begins with the mark of a name. -/
lemma differ_mark_opening (s : Statement) : differ "% ".toList s.opening.toList = true := by
  cases s with
  | dom x => rw [opening]; decide
  | sum r => rw [opening]; decide
  | optimize sense ps => cases sense <;> rw [opening] <;> decide

/-- A statement is read as it was written. -/
lemma read_append (s : Statement) (rest : List Char) :
    read (s.write.toList ++ rest) = some (s, rest) := by
  -- the readers of other statements stop within the opening
  have hskip : ∀ {w : List Char} {α : Type} {k : Unit → Parser α},
      differ w s.opening.toList = true → (literal w >>= k) (s.write.toList ++ rest) = none :=
    fun h => bind_of_eq_none (literal_of_opening s.exists_write_eq h rest)
  cases s with
  | dom x => exact orElse_of_eq_some (readDom_append x rest)
  | sum r =>
    simp only [opening] at hskip
    refine (orElse_of_eq_none (hskip (by decide))).trans ?_
    exact orElse_of_eq_some (readComparison_append r rest)
  | optimize sense ps =>
    simp only [opening] at hskip
    refine (orElse_of_eq_none (hskip (by cases sense <;> decide))).trans ?_
    refine (orElse_of_eq_none (hskip (by cases sense <;> decide))).trans ?_
    exact readOptimize_append sense ps rest

/-! ## What statements state -/

/-- The variable of a domain. -/
def column? : Statement → Option Column
  | dom x => some x
  | _ => none

/-- The row of a comparison. -/
def row? : Statement → Option Row
  | sum r => some r
  | _ => none

/-- The goal of a sum that is optimised. -/
def goal? : Statement → Option Goal
  | optimize sense ps => some ⟨sense, ps, none⟩
  | _ => none

end Statement

/-- The problem that a program states. -/
def problem (l : Listing Statement) : Problem where
  name := l.name
  columns := l.statements.filterMap Statement.column?
  rows := l.statements.filterMap Statement.row?
  goal := (l.statements.filterMap Statement.goal?).head?

/-- The language of clingcon. -/
def dialect : Dialect Statement where
  mark := "% "
  Allows _ := True
  write := Statement.write
  read := Statement.read
  problem := problem
  read_write s _ rest := s.read_append ('\n' :: rest)
  read_nil := rfl
  mark_write s rest := literal_of_opening s.exists_write_eq s.differ_mark_opening rest
  mark_nil := comment_nil

/-! ## The program of a problem -/

/-- The program of a problem. -/
def listing (p : Problem) : Listing Statement where
  name := p.name
  statements := p.columns.map .dom ++ p.rows.map .sum
    ++ p.goal.toList.map (fun g => .optimize g.sense g.products)

/-- The program of a problem states the problem, if its goal needs no column of its own. -/
lemma problem_listing {p : Problem} (hgoal : ∀ g ∈ p.goal, g.column = none) :
    problem (listing p) = p := by
  have hcolumns : (listing p).statements.filterMap Statement.column? = p.columns := by
    simp [listing, Statement.column?, List.filterMap_map, Function.comp_def]
  have hrows : (listing p).statements.filterMap Statement.row? = p.rows := by
    simp [listing, Statement.row?, List.filterMap_map, Function.comp_def]
  have hgoals : (listing p).statements.filterMap Statement.goal? =
      p.goal.toList.map fun g => ⟨g.sense, g.products, none⟩ := by
    simp [listing, Statement.goal?, List.filterMap_map, Function.comp_def]
  have hgoal' : (p.goal.toList.map fun g => (⟨g.sense, g.products, none⟩ : Goal)).head? = p.goal := by
    cases hg : p.goal with
    | none => rfl
    | some g => simp [← hgoal g hg]
  rw [problem, hcolumns, hrows, hgoals, hgoal']
  rfl

/-! ## Emitted programs -/

open Emit

variable {inst : Instance} {s s' : String} {u : Unit}

/-- The products behind the first one each have a separator in front. -/
lemma intercalate_writeProduct (p : Product) (ps : List Product) :
    "; ".intercalate ((p :: ps).map writeProduct) = writeSum (p :: ps) := by
  induction ps generalizing p with
  | nil => simp [writeSum]
  | cons q ps ih =>
    rw [List.map_cons, List.map_cons, String.intercalate_cons_cons, ← List.map_cons, ih, writeSum,
      writeSum, List.map_cons, String.join_cons]
    simp only [String.append_assoc]

/-- A sum of terms with integer coefficients is that of the products that show the terms. -/
lemma gives_elements {ts : List Term} (hts : ∀ t ∈ ts, t.coeff.isInteger = true) {body : String}
    (h : Gives (elements inst ts) s body s') :
    ∃ ps, List.Forall₂ (Product.Shows inst) ts ps ∧ body = " " ++ writeSum ps ++ " " ∧ s' = s := by
  obtain ⟨products, s₁, hproducts, hbody⟩ := h.of_bind
  obtain ⟨ps, hps, rfl, rfl⟩ := gives_products (g := writeProduct) hts (fun _ _ => rfl) hproducts
  obtain ⟨rfl, rfl⟩ := hbody.of_pure
  refine ⟨ps, hps, ?_, rfl⟩
  cases hps with
  | nil => rfl
  | cons => rw [intercalate_writeProduct]; rfl

/-- The parts of a comparison in a row. -/
lemma statement_sum (r : Row) :
    statement "sum" (" " ++ writeSum r.products ++ " ")
      (" " ++ r.rel.symbol ++ " " ++ toString r.rhs) = Statement.writeComparison r := by
  apply String.toList_inj.1
  delta statement Statement.writeComparison
  simp

/-- The parts of a sum that is optimised in a row. -/
lemma statement_word (sense : Sense) (ps : List Product) :
    statement sense.word (" " ++ writeSum ps ++ " ") "" =
      Statement.writeOptimize sense ps := by
  apply String.toList_inj.1
  delta statement Statement.writeOptimize
  simp

/-- The parts of a domain in a row. -/
lemma statement_dom (x : Column) :
    statement "dom" (toString x.least ++ ".." ++ toString x.greatest) (" = " ++ quoted x.name) =
      Statement.writeDom x := by
  apply String.toList_inj.1
  delta statement Statement.writeDom
  simp

/-- A constraint without fractions is written as a row that shows the constraint. -/
lemma gives_emitConstr {c : LinConstraint} (hc : c.isIntegral = true)
    (h : Gives (emitConstr inst c) s u s') :
    ∃ r, Row.Shows inst c r ∧ s' = s ++ (dialect.write (.sum r) ++ "\n") := by
  obtain ⟨body, s₁, hbody, hline⟩ := h.of_bind
  obtain ⟨ps, hps, rfl, rfl⟩ := gives_elements (fun t ht => isInteger_of_mem_mergedTerms hc ht) hbody
  refine ⟨_, shows_row hc hps, ?_⟩
  rw [hline.of_line]
  exact congrArg (fun w => s₁ ++ (w ++ "\n"))
    (statement_sum ⟨c.rel, c.rhs.truncate.toInt, ps⟩)

/-- An objective without fractions is written as a goal that shows the objective. -/
lemma gives_emitObjective {f : OutputFormat} (hf : f.ShowsColumn inst none)
    (ho : inst.objective.isIntegral = true) (hd : f.directionOf inst.objective ≠ .unspecified)
    (h : Gives (emitObjective inst (f.directionOf inst.objective)) s u s') :
    ∃ g : Goal, g.Shows f inst ∧
      s' = s ++ (dialect.write (.optimize g.sense g.products) ++ "\n") := by
  obtain ⟨body, s₁, hbody, hline⟩ := h.of_bind
  obtain ⟨ps, hps, rfl, rfl⟩ := gives_elements (Term.allIntegers_iff.1 ho) hbody
  refine ⟨⟨.ofDirection (f.directionOf inst.objective), ps, none⟩,
    ⟨direction_ofDirection hd, hps, hf⟩, ?_⟩
  rw [hline.of_line, directionWord_eq, statement_word]
  rfl

/-- The text of an instance that is written is that of the program of its problem. -/
lemma exists_problem_of_output {fallback : Direction} (hfallback : fallback ≠ .unspecified)
    {text : String} (h : (encode fallback inst).output = (.ok (), text)) :
    ∃ p : Problem, p.Shows (.clingcon fallback) inst ∧ dialect.text (listing p) = text := by
  -- the checks write nothing; every loop after them writes the lines of one kind of statement
  obtain ⟨_, s₁, harity, h⟩ := (gives_of_output h).of_bind
  obtain rfl := gives_checkArity harity
  obtain ⟨_, s₂, hintegral, h⟩ := h.of_bind
  obtain ⟨hcs, ho, rfl⟩ := gives_checkIntegral hintegral
  obtain ⟨d, s₃, hd, h⟩ := h.of_bind
  obtain ⟨hnone, hsome, rfl⟩ := gives_objectiveDirection (f := .clingcon fallback)
    (fun h => hfallback (Option.some.inj h)) hd
  obtain ⟨_, s₄, hname, h⟩ := h.of_bind
  obtain rfl := dialect.gives_nameLine hname
  obtain ⟨_, s₅, hvars, h⟩ := h.of_bind
  obtain rfl := dialect.gives_lines (g := fun x => .dom (Column.ofVariable x))
    (fun x => statement_dom (Column.ofVariable x)) hvars
  obtain ⟨_, s₆, hconstrs, hgoal⟩ := h.of_bind
  obtain ⟨rows, hrows, rfl⟩ := Gives.of_forM (P := Row.Shows inst)
    (g := fun r => dialect.write (.sum r) ++ "\n")
    (fun c hc _ _ _ hemit => gives_emitConstr (hcs c hc) hemit) hconstrs
  obtain ⟨goal, hterms, hshows, rfl⟩ := exists_goal_of_gives (f := .clingcon fallback)
    (fun g => dialect.write (.optimize g.sense g.products) ++ "\n") hnone
    (fun a ha => by
      obtain ⟨hne, rfl, hknown⟩ := hsome a ha
      exact ⟨hne, gives_emitObjective rfl ho hknown⟩) hgoal
  refine ⟨⟨inst.name, inst.vars.map Column.ofVariable, rows, goal⟩,
    ⟨rfl, rfl, hrows, hterms, hshows⟩, ?_⟩
  rw [Dialect.text, listing, Dialect.lines_append, Dialect.lines_append, List.map_map,
    dialect.lines_map Statement.sum,
    dialect.lines_map fun g : Goal => Statement.optimize g.sense g.products]
  simp only [String.append_assoc, String.empty_append]
  rfl

/-- The program of a problem can be read back if its name is a single line. -/
lemma isListing_listing {p : Problem} (h : ∀ name ∈ p.name, '\n' ∉ name.toList) :
    dialect.IsListing (listing p) where
  name_line := h
  allows _ _ := trivial

end LinearInterchange.Asp.Clingcon
