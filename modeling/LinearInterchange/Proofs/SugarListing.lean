import LinearInterchange.Proofs.Declarations
import LinearInterchange.Proofs.ExchangeLine
import LinearInterchange.Proofs.Listings

/-!
# Listings for Sugar

A program for Sugar is a list of expressions between parentheses: the integer variables, the
comparisons of sums with integers, and, for an objective, a variable that is defined as a sum and
then optimised.  What such a program states of the objective goes through the name of its variable,
and that variable is none of the problem.  Names are symbols, which end at the first blank or
parenthesis.

An instance that is written for Sugar is a listing of its problem (`exists_problem_of_output`).
-/

namespace LinearInterchange.Sugar

open Text Text.Parser Problem OutputFormat

/-! ## Symbols -/

/-- The character is no white space and none of the characters that end a symbol. -/
def isSymbolChar (c : Char) : Bool :=
  !(isBlank c || c == '(' || c == ')' || c == ';' || c == '"')

/-- The name can stand where an expression may stand: it is a run of characters other than white
space and those that end a symbol, and it is not the zero that stands for an empty sum. -/
structure IsSymbol (name : String) : Prop where
  ne_nil : name.toList ≠ []
  chars : ∀ c ∈ name.toList, isSymbolChar c = true
  ne_zero : name.toList ≠ ['0']

/-- Reads a symbol. -/
def readSymbol : Parser String := do
  let name ← run1 isSymbolChar
  return String.ofList name

/-- A symbol is read up to the character that ends it. -/
lemma readSymbol_append {name : String} (h : IsSymbol name) {rest : List Char}
    (hrest : Stops isSymbolChar rest) : readSymbol (name.toList ++ rest) = some (name, rest) := by
  rw [readSymbol, bind_of_eq_some (run1_append h.chars h.ne_nil hrest), String.ofList_toList]
  rfl

/-- Names that are accepted as symbols are symbols. -/
lemma isSymbol_of_eq_true {name : String} (h : isSymbol name = true) : IsSymbol name := by
  unfold isSymbol at h
  rw [Bool.and_eq_true, Bool.and_eq_true] at h
  obtain ⟨⟨hempty, hchars⟩, hword⟩ := h
  refine ⟨fun hnil => ?_, fun c hc => ?_, fun hzero => ?_⟩
  · rw [String.toList_eq_nil_iff.1 hnil] at hempty
    cases hempty
  · have hnone : ¬(isBlank c || "();\"".toList.contains c) = true := by
      intro hc'
      simp only [Bool.not_eq_true', List.any_eq_false] at hchars
      exact hchars c hc hc'
    simpa [isSymbolChar, and_assoc] using hnone
  · rw [hzero] at hword
    cases hword

/-- A symbol with underscores in front is a symbol. -/
lemma IsSymbol.underscores {name fresh : String} (h : IsSymbol name) {k : ℕ}
    (hfresh : fresh.toList = List.replicate k '_' ++ name.toList) : IsSymbol fresh := by
  refine ⟨?_, fun c hc => ?_, ?_⟩
  · rw [hfresh]
    exact List.append_ne_nil_of_right_ne_nil _ h.ne_nil
  · rw [hfresh, List.mem_append] at hc
    rcases hc with hc | hc
    · rw [List.eq_of_mem_replicate hc]
      decide
    · exact h.chars c hc
  · rw [hfresh]
    cases k with
    | zero => exact h.ne_zero
    | succ k => simp [List.replicate_succ]

/-! ## Sums -/

/-- The text of a product. -/
def writeProduct (p : Product) : String :=
  "(* " ++ toString p.factor ++ " " ++ p.name ++ ")"

/-- The text of a sum. -/
def writeSum : List Product → String
  | [] => "0"
  | [p] => writeProduct p
  | p :: q :: ps => "(+" ++ String.join ((p :: q :: ps).map fun p => " " ++ writeProduct p) ++ ")"

/-- Reads a product. -/
def readProduct : Parser Product := do
  literal "(* ".toList
  let factor ← signed
  literal " ".toList
  let name ← readSymbol
  literal ")".toList
  return ⟨factor, name⟩

/-- Reads a product behind a blank. -/
def readNext : Parser Product := do
  literal " ".toList
  readProduct

/-- Reads products after a plus sign. -/
def readPlus : Parser (List Product) := do
  literal "(+".toList
  let ps ← many readNext
  literal ")".toList
  return ps

/-- Reads a single product. -/
def readSingle : Parser (List Product) := do
  let p ← readProduct
  return [p]

/-- Reads a sum. -/
def readSum : Parser (List Product) :=
  (do literal "0".toList; return []) <|> readSingle <|> readPlus

/-- A product is read as it was written. -/
lemma readProduct_append {p : Product} (h : IsSymbol p.name) (rest : List Char) :
    readProduct ((writeProduct p).toList ++ rest) = some (p, rest) := by
  delta writeProduct
  simp only [String.toList_append, List.append_assoc]
  rw [readProduct, bind_of_eq_some (literal_append _ _),
    bind_of_eq_some (signed_append _ (stops_append (by decide) _)),
    bind_of_eq_some (literal_append _ _),
    bind_of_eq_some (readSymbol_append h (stops_append (by decide) _)),
    bind_of_eq_some (literal_append _ _)]
  rfl

/-- Products behind blanks are read up to the closing parenthesis. -/
lemma many_readNext {ps : List Product} (h : ∀ p ∈ ps, IsSymbol p.name) (rest : List Char) :
    many readNext ((String.join (ps.map fun p => " " ++ writeProduct p)).toList ++
      (")".toList ++ rest)) = some (ps, ")".toList ++ rest) := by
  induction ps with
  | nil => exact many_of_eq_none (bind_of_eq_none (literal_eq_none (by decide) rest))
  | cons p ps ih =>
    rw [List.map_cons, String.join_cons, String.toList_append, String.toList_append,
      List.append_assoc, List.append_assoc]
    refine many_of_eq_some ?_ ?_ (ih fun q hq => h q (List.mem_cons_of_mem _ hq))
    · rw [readNext, bind_of_eq_some (literal_append _ _),
        readProduct_append (h p List.mem_cons_self)]
    · have hblank : 0 < " ".toList.length := by decide
      simp only [List.length_append]
      omega

/-- A word that begins otherwise is not read from a product. -/
lemma literal_writeProduct {w : List Char} (h : differ w "(* ".toList = true) (p : Product)
    (rest : List Char) : literal w ((writeProduct p).toList ++ rest) = none := by
  delta writeProduct
  simp only [String.toList_append, List.append_assoc]
  exact literal_eq_none h _

/-- A sum is read as it was written. -/
lemma readSum_append {ps : List Product} (h : ∀ p ∈ ps, IsSymbol p.name) (rest : List Char) :
    readSum ((writeSum ps).toList ++ rest) = some (ps, rest) := by
  rcases ps with _ | ⟨p, _ | ⟨q, ps⟩⟩
  · exact orElse_of_eq_some (bind_of_eq_some (literal_append _ _))
  · have hzero : literal "0".toList ((writeProduct p).toList ++ rest) = none :=
      literal_writeProduct (by decide) p rest
    refine (orElse_of_eq_none (bind_of_eq_none hzero)).trans (orElse_of_eq_some ?_)
    rw [readSingle, bind_of_eq_some (readProduct_append (h p List.mem_cons_self) _)]
    rfl
  · rw [writeSum, String.toList_append, String.toList_append, List.append_assoc, List.append_assoc]
    refine (orElse_of_eq_none (bind_of_eq_none (literal_eq_none (by decide) _))).trans ?_
    refine (orElse_of_eq_none (bind_of_eq_none (bind_of_eq_none ?_))).trans ?_
    · exact literal_eq_none (by decide) _
    · rw [readPlus, bind_of_eq_some (literal_append _ _), bind_of_eq_some (many_readNext h _),
        bind_of_eq_some (literal_append _ _)]
      rfl

/-- A symbol is no sum with a blank behind it.  A zero at its beginning is read as one, but then the
symbol goes on. -/
lemma readSum_symbol {name : String} (h : IsSymbol name) {α : Type}
    (k : List Product → Unit → Parser α) (rest : List Char) :
    (readSum >>= fun ps => literal " ".toList >>= k ps) (name.toList ++ rest) = none := by
  obtain ⟨hne, hchars, hzero⟩ := h
  cases hn : name.toList with
  | nil => exact absurd hn hne
  | cons c cs =>
    rw [hn] at hchars hzero
    -- a sum is a zero, or it begins with a bracket
    by_cases hc : c = '0'
    · subst hc
      have hread : readSum ('0' :: cs ++ rest) = some ([], cs ++ rest) :=
        orElse_of_eq_some (bind_of_eq_some (literal_append "0".toList _))
      rw [bind_of_eq_some hread]
      cases cs with
      | nil => exact absurd rfl hzero
      | cons d cs =>
        have hd : d ≠ ' ' := by
          rintro rfl
          exact absurd (hchars ' ' (by simp)) (by decide)
        exact bind_of_eq_none (literal_eq_none (v := [d]) (by simpa [differ] using hd.symm) (cs ++ rest))
    · have hparen : c ≠ '(' := by
        rintro rfl
        exact absurd (hchars '(' (by simp)) (by decide)
      have hskip : ∀ {d : Char} {w : List Char}, c ≠ d →
          literal (d :: w) (c :: (cs ++ rest)) = none :=
        fun hd => bind_of_eq_none (char_of_stops (stops_cons (beq_eq_false_iff_ne.2 hd)))
      refine bind_of_eq_none ?_
      refine (orElse_of_eq_none (bind_of_eq_none (hskip hc))).trans ?_
      refine (orElse_of_eq_none (bind_of_eq_none (bind_of_eq_none (hskip hparen)))).trans ?_
      exact bind_of_eq_none (hskip hparen)

/-! ## Writing and reading statements -/

/-- A statement of a program. -/
inductive Statement where
  | int (x : Column)
  | comparison (r : Row)
  | definition (name : String) (products : List Product)
  | objective (sense : Sense) (name : String)

namespace Statement

/-- All names of the statement are symbols. -/
def HasSymbols : Statement → Prop
  | int x => IsSymbol x.name
  | comparison r => ∀ p ∈ r.products, IsSymbol p.name
  | definition name ps => IsSymbol name ∧ ∀ p ∈ ps, IsSymbol p.name
  | objective _ name => IsSymbol name

/-- The names in the statement. -/
def names : Statement → List String
  | int x => [x.name]
  | comparison r => r.products.map (·.name)
  | definition name ps => name :: ps.map (·.name)
  | objective _ name => [name]

lemma hasSymbols_iff {s : Statement} : s.HasSymbols ↔ ∀ name ∈ s.names, IsSymbol name := by
  cases s <;> simp [HasSymbols, names]

/-- The text of an integer variable. -/
def writeInt (x : Column) : String :=
  "(int " ++ x.name ++ " " ++ toString x.least ++ " " ++ toString x.greatest ++ ")"

/-- The text of a comparison. -/
def writeComparison (r : Row) : String :=
  "(" ++ r.rel.symbol ++ " " ++ writeSum r.products ++ " " ++ toString r.rhs ++ ")"

/-- The text of a definition. -/
def writeDefinition (name : String) (ps : List Product) : String :=
  "(= " ++ name ++ " " ++ writeSum ps ++ ")"

/-- The text of what is optimised. -/
def writeObjective (sense : Sense) (name : String) : String :=
  "(objective " ++ sense.word ++ " " ++ name ++ ")"

/-- The text of a statement. -/
def write : Statement → String
  | int x => writeInt x
  | comparison r => writeComparison r
  | definition name ps => writeDefinition name ps
  | objective sense name => writeObjective sense name

/-- Reads an integer variable. -/
def readInt : Parser Statement := do
  literal "(int ".toList
  let name ← readSymbol
  literal " ".toList
  let least ← signed
  literal " ".toList
  let greatest ← signed
  literal ")".toList
  return int ⟨name, least, greatest⟩

/-- Reads what is optimised. -/
def readObjective : Parser Statement := do
  literal "(objective ".toList
  let sense ← Sense.read
  literal " ".toList
  let name ← readSymbol
  literal ")".toList
  return objective sense name

/-- Reads a comparison. -/
def readComparison : Parser Statement := do
  literal "(".toList
  let rel ← Exchange.Line.relationText
  literal " ".toList
  let products ← readSum
  literal " ".toList
  let rhs ← signed
  literal ")".toList
  return comparison ⟨rel, rhs, products⟩

/-- Reads a definition. -/
def readDefinition : Parser Statement := do
  literal "(= ".toList
  let name ← readSymbol
  literal " ".toList
  let products ← readSum
  literal ")".toList
  return definition name products

/-- Reads a statement. -/
def read : Parser Statement :=
  readInt <|> readObjective <|> readComparison <|> readDefinition

/-- An integer variable is read as it was written. -/
lemma readInt_append {x : Column} (h : IsSymbol x.name) (rest : List Char) :
    readInt ((writeInt x).toList ++ rest) = some (int x, rest) := by
  delta writeInt
  simp only [String.toList_append, List.append_assoc]
  rw [readInt, bind_of_eq_some (literal_append _ _),
    bind_of_eq_some (readSymbol_append h (stops_append (by decide) _)),
    bind_of_eq_some (literal_append _ _),
    bind_of_eq_some (signed_append _ (stops_append (by decide) _)),
    bind_of_eq_some (literal_append _ _),
    bind_of_eq_some (signed_append _ (stops_append (by decide) _)),
    bind_of_eq_some (literal_append _ _)]
  rfl

/-- What is optimised is read as it was written. -/
lemma readObjective_append (sense : Sense) {name : String} (h : IsSymbol name)
    (rest : List Char) :
    readObjective ((writeObjective sense name).toList ++ rest) =
      some (objective sense name, rest) := by
  delta writeObjective
  simp only [String.toList_append, List.append_assoc]
  rw [readObjective, bind_of_eq_some (literal_append _ _),
    bind_of_eq_some (Sense.read_append _ _), bind_of_eq_some (literal_append _ _),
    bind_of_eq_some (readSymbol_append h (stops_append (by decide) _)),
    bind_of_eq_some (literal_append _ _)]
  rfl

/-- A comparison is read as it was written. -/
lemma readComparison_append {r : Row} (h : ∀ p ∈ r.products, IsSymbol p.name)
    (rest : List Char) :
    readComparison ((writeComparison r).toList ++ rest) = some (comparison r, rest) := by
  delta writeComparison
  simp only [String.toList_append, List.append_assoc]
  rw [readComparison, bind_of_eq_some (literal_append _ _),
    bind_of_eq_some (Exchange.Line.relationText_append _ _),
    bind_of_eq_some (literal_append _ _), bind_of_eq_some (readSum_append h _),
    bind_of_eq_some (literal_append _ _),
    bind_of_eq_some (signed_append _ (stops_append (by decide) _)),
    bind_of_eq_some (literal_append _ _)]
  rfl

/-- A definition is read as it was written. -/
lemma readDefinition_append {name : String} (hname : IsSymbol name) {ps : List Product}
    (hps : ∀ p ∈ ps, IsSymbol p.name) (rest : List Char) :
    readDefinition ((writeDefinition name ps).toList ++ rest) =
      some (definition name ps, rest) := by
  delta writeDefinition
  simp only [String.toList_append, List.append_assoc]
  rw [readDefinition, bind_of_eq_some (literal_append _ _),
    bind_of_eq_some (readSymbol_append hname (stops_append (by decide) _)),
    bind_of_eq_some (literal_append _ _), bind_of_eq_some (readSum_append hps _),
    bind_of_eq_some (literal_append _ _)]
  rfl

/-- What the text of a statement begins with. -/
def opening : Statement → String
  | int _ => "(int "
  | comparison r => "(" ++ r.rel.symbol
  | definition _ _ => "(= "
  | objective _ _ => "(objective "

/-- The text of a statement begins with its opening. -/
lemma exists_write_eq (s : Statement) :
    ∃ tail, s.write.toList = s.opening.toList ++ tail := by
  cases s <;> dsimp only [write, opening] <;>
    delta writeInt writeComparison writeDefinition writeObjective <;>
    simp only [String.toList_append, List.append_assoc] <;> exact ⟨_, rfl⟩

/-- No statement begins with the mark of a name. -/
lemma differ_mark_opening (s : Statement) : differ "; ".toList s.opening.toList = true := by
  cases s with
  | int x => rw [opening]; decide
  | comparison r => rw [opening]; cases r.rel <;> decide
  | definition name ps => rw [opening]; decide
  | objective sense name => rw [opening]; decide

/-- A definition is no comparison. -/
lemma readComparison_writeDefinition {name : String} (h : IsSymbol name) (ps : List Product)
    (rest : List Char) : readComparison ((writeDefinition name ps).toList ++ rest) = none := by
  have htext : (writeDefinition name ps).toList ++ rest = "(".toList ++ (Relation.eq.symbol.toList ++
      (" ".toList ++ (name.toList ++ (" ".toList ++ ((writeSum ps).toList ++
        (")".toList ++ rest)))))) := by
    delta writeDefinition
    simp only [String.toList_append, List.append_assoc]
    rfl
  rw [htext, readComparison, bind_of_eq_some (literal_append _ _),
    bind_of_eq_some (Exchange.Line.relationText_append _ _),
    bind_of_eq_some (literal_append _ _)]
  exact readSum_symbol h _ _

/-- A statement is read as it was written. -/
lemma read_append {s : Statement} (h : s.HasSymbols) (rest : List Char) :
    read (s.write.toList ++ rest) = some (s, rest) := by
  -- the readers of other statements stop within the opening
  have hskip : ∀ {w : List Char} {α : Type} {k : Unit → Parser α},
      differ w s.opening.toList = true → (literal w >>= k) (s.write.toList ++ rest) = none :=
    fun h => bind_of_eq_none (literal_of_opening s.exists_write_eq h rest)
  cases s with
  | int x => exact orElse_of_eq_some (readInt_append h rest)
  | objective sense name =>
    simp only [opening] at hskip
    refine (orElse_of_eq_none (hskip (by decide))).trans ?_
    exact orElse_of_eq_some (readObjective_append sense h rest)
  | comparison r =>
    simp only [opening] at hskip
    refine (orElse_of_eq_none (hskip (by cases r.rel <;> decide))).trans ?_
    refine (orElse_of_eq_none (hskip (by cases r.rel <;> decide))).trans ?_
    exact orElse_of_eq_some (readComparison_append h rest)
  | definition name ps =>
    simp only [opening] at hskip
    refine (orElse_of_eq_none (hskip (by decide))).trans ?_
    refine (orElse_of_eq_none (hskip (by decide))).trans ?_
    refine (orElse_of_eq_none (readComparison_writeDefinition h.1 ps rest)).trans ?_
    exact readDefinition_append h.1 h.2 rest

/-! ## What statements state -/

/-- The integer variable of a statement. -/
def column? : Statement → Option Column
  | int x => some x
  | _ => none

/-- The row of a comparison. -/
def row? : Statement → Option Row
  | comparison r => some r
  | _ => none

/-- The products that a name is defined as. -/
def products? (name : String) : Statement → Option (List Product)
  | definition n ps => if n = name then some ps else none
  | _ => none

/-- The name of what is optimised, and in which sense. -/
def objective? : Statement → Option (Sense × String)
  | objective sense name => some (sense, name)
  | _ => none

end Statement

/-- The goal of a program that optimises the variable with a given name: what the name is defined as,
and the bounds of the variable. -/
def goalOf (ss : List Statement) (sense : Sense) (name : String) : Goal where
  sense := sense
  products := (ss.filterMap (Statement.products? name)).head?.getD []
  column := (ss.filterMap Statement.column?).find? fun x => x.name = name

/-- The problem that a program states.  The variable that is optimised is none of its columns. -/
def problem (l : Listing Statement) : Problem :=
  let objective := (l.statements.filterMap Statement.objective?).head?
  { name := l.name
    columns := (l.statements.filterMap Statement.column?).filter fun x =>
      objective.all fun o => x.name ≠ o.2
    rows := l.statements.filterMap Statement.row?
    goal := objective.map fun o => goalOf l.statements o.1 o.2 }

/-- The language of Sugar. -/
def dialect : Dialect Statement where
  mark := "; "
  Allows := Statement.HasSymbols
  write := Statement.write
  read := Statement.read
  problem := problem
  read_write _ h rest := Statement.read_append h ('\n' :: rest)
  read_nil := rfl
  mark_write s rest := literal_of_opening s.exists_write_eq s.differ_mark_opening rest
  mark_nil := rfl

/-! ## The program of a problem -/

/-- The statements of a goal that is optimised through a variable. -/
def goalStatements (g : Goal) (x : Column) : List Statement :=
  [.int x, .definition x.name g.products, .objective g.sense x.name]

/-- The program of a problem. -/
def listing (p : Problem) : Listing Statement where
  name := p.name
  statements := p.columns.map .int ++ p.rows.map .comparison
    ++ p.goal.toList.flatMap (fun g => g.column.toList.flatMap (goalStatements g))

/-- What a view of statements finds in the program of a problem. -/
lemma filterMap_listing {α : Type} (view : Statement → Option α) (p : Problem) :
    (listing p).statements.filterMap view =
      p.columns.filterMap (fun x => view (.int x))
        ++ p.rows.filterMap (fun r => view (.comparison r))
        ++ p.goal.toList.flatMap (fun g =>
          g.column.toList.flatMap fun x => (goalStatements g x).filterMap view) := by
  rw [listing, List.filterMap_append, List.filterMap_append, List.filterMap_map,
    List.filterMap_map, List.filterMap_flatMap]
  simp only [List.filterMap_flatMap]
  rfl

variable {p : Problem} {g : Goal} {x : Column}

/-- The integer variables of a program are the columns of the problem and the one of its goal. -/
lemma columns_listing (hg : p.goal = some g) (hx : g.column = some x) :
    (listing p).statements.filterMap Statement.column? = p.columns ++ [x] := by
  simp [filterMap_listing, hg, hx, goalStatements, Statement.column?]

/-- The comparisons of a program are the rows of the problem. -/
lemma rows_listing (p : Problem) :
    (listing p).statements.filterMap Statement.row? = p.rows := by
  simp [filterMap_listing, goalStatements, Statement.row?]

/-- The goal of a program is found through the name of its column, if that name is new. -/
lemma goalOf_listing (hg : p.goal = some g) (hx : g.column = some x)
    (hnew : ∀ y ∈ p.columns, y.name ≠ x.name) :
    goalOf (listing p).statements g.sense x.name = g := by
  have hproducts : (listing p).statements.filterMap (Statement.products? x.name) = [g.products] := by
    simp [filterMap_listing, hg, hx, goalStatements, Statement.products?, List.filterMap_cons]
  have hfind : (p.columns ++ [x]).find? (fun y => y.name = x.name) = g.column := by
    rw [List.find?_append, List.find?_eq_none.2 fun y hy => by simpa using hnew y hy, hx]
    simp
  rw [goalOf, hproducts, columns_listing hg hx, hfind]
  rfl

/-- The program of a problem states the problem, if its goal has a column of its own whose name is
new. -/
lemma problem_listing (hgoal : ∀ g ∈ p.goal, ∃ x, g.column = some x ∧
    ∀ y ∈ p.columns, y.name ≠ x.name) : problem (listing p) = p := by
  cases hg : p.goal with
  | none =>
    have hcolumns : (listing p).statements.filterMap Statement.column? = p.columns := by
      simp [filterMap_listing, hg, Statement.column?]
    have hobjective : (listing p).statements.filterMap Statement.objective? = [] := by
      simp [filterMap_listing, hg, Statement.objective?]
    rw [problem, hcolumns, rows_listing, hobjective, List.filter_eq_self.2 fun _ _ => by rfl]
    exact congrArg (Problem.mk p.name p.columns p.rows) hg.symm
  | some g =>
    obtain ⟨x, hx, hnew⟩ := hgoal g hg
    have hobjective : (listing p).statements.filterMap Statement.objective? =
        [(g.sense, x.name)] := by
      simp [filterMap_listing, hg, hx, goalStatements, Statement.objective?, List.filterMap_cons]
    have hcolumns : (p.columns ++ [x]).filter (fun y => y.name ≠ x.name) = p.columns := by
      rw [List.filter_append, List.filter_eq_self.2 fun y hy => by simpa using hnew y hy]
      simp
    rw [problem, columns_listing hg hx, rows_listing, hobjective, List.head?_cons,
      Option.map_some, goalOf_listing hg hx hnew, ← hg]
    exact congrArg (fun columns => Problem.mk p.name columns p.rows p.goal) hcolumns

/-! ## Emitted programs -/

open Emit

variable {inst : Instance} {s s' : String} {u : Unit}

/-- The names of an instance that passes the check are accepted as symbols. -/
lemma gives_checkNames (h : Gives (checkNames inst) s u s') :
    (∀ name ∈ inst.names, isSymbol name = true) ∧ s' = s := by
  unfold checkNames at h
  split at h
  next => exact absurd h not_gives_throw
  next hnone =>
    exact ⟨fun name hname => by simpa using List.find?_eq_none.1 hnone name hname, h.of_pure.2⟩

/-- The name for the objective variable is accepted as a symbol. -/
lemma isSymbol_of_objectiveVarOf {opts : Options} {name : String}
    (h : objectiveVarOf opts = .ok name) : isSymbol name = true := by
  obtain ⟨_, -, h⟩ := bind_eq_ok.1 h
  split at h
  · cases h
    decide
  · split at h
    next hsymbol =>
      cases h
      exact hsymbol
    next => cases h

/-- The range of a sum with integer coefficients has integers at its ends. -/
lemma isInteger_sumRange {ts : List Term} (hts : ∀ t ∈ ts, t.coeff.isInteger = true)
    {lo hi : Coeff} (h : sumRange inst ts = .ok (lo, hi)) :
    lo.isInteger = true ∧ hi.isInteger = true := by
  have hfold : Settles (fun _ => True)
      (fun r : Coeff × Coeff => r.1.isInteger = true ∧ r.2.isInteger = true)
      (sumRange inst ts) := by
    refine Settles.foldlM ⟨Coeff.isInteger_zero, Coeff.isInteger_zero⟩ fun t ht r hr => ?_
    obtain ⟨lo₀, hi₀⟩ := r
    refine Settles.of_forall_ok fun r' hstep => ?_
    obtain ⟨⟨tlo, thi⟩, hrange, hstep⟩ := bind_eq_ok.1 hstep
    obtain ⟨lo₁, hlo₁, hstep⟩ := bind_eq_ok.1 hstep
    obtain ⟨hi₁, hhi₁, hstep⟩ := bind_eq_ok.1 hstep
    obtain rfl := Except.ok.inj hstep
    obtain ⟨htlo, hthi⟩ := Term.isInteger_valueRange hrange (hts t ht)
    exact ⟨Coeff.isInteger_of_add hr.1 htlo hlo₁, Coeff.isInteger_of_add hr.2 hthi hhi₁⟩
  exact hfold.of_ok h

/-- The range of the objective is computed if there is a direction to write. -/
lemma gives_objectiveRange {d : Option Direction} {o : Option (Direction × Coeff × Coeff)}
    (h : Gives (objectiveRange inst d) s o s') :
    (o = none → d = none) ∧
      (∀ a, o = some a → d = some a.1 ∧ sumRange inst inst.objective.terms = .ok a.2) ∧
      s' = s := by
  unfold objectiveRange at h
  cases d with
  | none =>
    obtain ⟨rfl, rfl⟩ := h.of_pure
    exact ⟨fun _ => rfl, fun a ha => (by cases ha), rfl⟩
  | some d =>
    dsimp only at h
    split at h
    next range hrange =>
      obtain ⟨rfl, rfl⟩ := h.of_pure
      refine ⟨fun hnone => (by cases hnone), fun a ha => ?_, rfl⟩
      obtain rfl := Option.some.inj ha
      exact ⟨rfl, hrange⟩
    next => exact absurd h not_gives_throw

/-- A sum of terms with integer coefficients is that of the products that show the terms. -/
lemma gives_sum {ts : List Term} (hts : ∀ t ∈ ts, t.coeff.isInteger = true) {text : String}
    (h : Gives (sum inst ts) s text s') :
    ∃ ps, List.Forall₂ (Product.Shows inst) ts ps ∧ text = writeSum ps ∧ s' = s := by
  obtain ⟨products, s₁, hproducts, htext⟩ := h.of_bind
  obtain ⟨ps, hps, rfl, rfl⟩ := gives_products (g := writeProduct) hts (fun _ _ => rfl) hproducts
  rcases ps with _ | ⟨p, _ | ⟨q, ps⟩⟩ <;> obtain ⟨rfl, rfl⟩ := htext.of_pure
  · exact ⟨[], hps, rfl, rfl⟩
  · exact ⟨[p], hps, rfl, rfl⟩
  · refine ⟨p :: q :: ps, hps, ?_, rfl⟩
    have hspaced : spaced ((p :: q :: ps).map writeProduct) =
        String.join ((p :: q :: ps).map fun p => " " ++ writeProduct p) := by
      rw [spaced, List.map_map]
      rfl
    exact congrArg (fun products => "(+" ++ products ++ ")") hspaced

/-- A constraint without fractions is written as a row that shows the constraint. -/
lemma gives_emitConstr {c : LinConstraint} (hc : c.isIntegral = true)
    (h : Gives (emitConstr inst c) s u s') :
    ∃ r, Row.Shows inst c r ∧ s' = s ++ (dialect.write (.comparison r) ++ "\n") := by
  obtain ⟨lhs, s₁, hlhs, hline⟩ := h.of_bind
  obtain ⟨ps, hps, rfl, rfl⟩ := gives_sum (fun t ht => isInteger_of_mem_mergedTerms hc ht) hlhs
  exact ⟨_, shows_row hc hps, hline.of_line⟩

/-- An objective without fractions is written as a goal that shows the objective. -/
lemma gives_emitObjective {objectiveVar : String} (ho : inst.objective.isIntegral = true)
    {lo hi : Coeff} (hrange : sumRange inst inst.objective.terms = .ok (lo, hi))
    (hd : directionOf (.sugar objectiveVar) inst.objective ≠ .unspecified)
    (h : Gives (emitObjective objectiveVar inst (directionOf (.sugar objectiveVar) inst.objective)
      (lo, hi)) s u s') :
    ∃ g : Goal, g.Shows (.sugar objectiveVar) inst ∧
      s' = s ++ dialect.lines (g.column.toList.flatMap (goalStatements g)) := by
  have hterms := Term.allIntegers_iff.1 ho
  obtain ⟨hlo, hhi⟩ := isInteger_sumRange hterms hrange
  let x : Column := ⟨freshName inst.takenNames objectiveVar, lo.truncate.toInt, hi.truncate.toInt⟩
  let sense := Sense.ofDirection (directionOf (.sugar objectiveVar) inst.objective)
  obtain ⟨_, s₁, hline₁, hsum⟩ := h.of_bind
  have hint : s₁ = s ++ (dialect.write (.int x) ++ "\n") := hline₁.of_line
  obtain ⟨rhs, s₂, hrhs, hlines⟩ := hsum.of_bind
  obtain ⟨ps, hps, rfl, rfl⟩ := gives_sum hterms hrhs
  obtain ⟨_, s₃, hline₂, hline₃⟩ := hlines.of_bind
  have hdefinition : s₃ = s₂ ++ (dialect.write (.definition x.name ps) ++ "\n") := hline₂.of_line
  rw [directionWord_eq] at hline₃
  have hobjective : s' = s₃ ++ (dialect.write (.objective sense x.name) ++ "\n") :=
    hline₃.of_line
  refine ⟨⟨sense, ps, some x⟩, ⟨direction_ofDirection hd, hps, lo, hi, x, rfl, hrange, rfl,
    Coeff.toInt_truncate hlo, Coeff.toInt_truncate hhi⟩, ?_⟩
  rw [hobjective, hdefinition, hint]
  simp only [Option.toList_some, List.flatMap_cons, List.flatMap_nil, List.append_nil,
    goalStatements, Dialect.lines_cons, Dialect.lines_nil, String.append_assoc,
    String.append_empty]

/-- The text of an instance that is written is that of the program of its problem. -/
lemma exists_problem_of_output {objectiveVar : String} {text : String}
    (h : (encode objectiveVar inst).output = (.ok (), text)) :
    ∃ p : Problem, p.Shows (.sugar objectiveVar) inst ∧ dialect.text (listing p) = text ∧
      ∀ name ∈ inst.names, isSymbol name = true := by
  -- the checks write nothing; every loop after them writes the lines of one kind of statement
  obtain ⟨_, s₁, hintegral, h⟩ := (gives_of_output h).of_bind
  obtain ⟨hcs, ho, rfl⟩ := gives_checkIntegral hintegral
  obtain ⟨_, s₂, hnames, h⟩ := h.of_bind
  obtain ⟨hsymbols, rfl⟩ := gives_checkNames hnames
  obtain ⟨d, s₃, hd, h⟩ := h.of_bind
  obtain ⟨hnone, hsome, rfl⟩ := gives_objectiveDirection (f := .sugar objectiveVar) (by simp [fallback?]) hd
  obtain ⟨o, s₄, hrange, h⟩ := h.of_bind
  obtain ⟨hnorange, hranges, rfl⟩ := gives_objectiveRange hrange
  obtain ⟨_, s₅, hname, h⟩ := h.of_bind
  obtain rfl := dialect.gives_nameLine hname
  obtain ⟨_, s₆, hvars, h⟩ := h.of_bind
  obtain rfl := dialect.gives_lines (g := fun x => .int (Column.ofVariable x)) (fun _ => rfl) hvars
  obtain ⟨_, s₇, hconstrs, hgoal⟩ := h.of_bind
  obtain ⟨rows, hrows, rfl⟩ := Gives.of_forM (P := Row.Shows inst)
    (g := fun r => dialect.write (.comparison r) ++ "\n")
    (fun c hc _ _ _ hemit => gives_emitConstr (hcs c hc) hemit) hconstrs
  obtain ⟨goal, hterms, hshows, rfl⟩ := exists_goal_of_gives (f := .sugar objectiveVar)
    (fun g => dialect.lines (g.column.toList.flatMap (goalStatements g)))
    (fun ho => hnone (hnorange ho))
    (fun a ha => by
      obtain ⟨d, lo, hi⟩ := a
      obtain ⟨rfl, hsum⟩ := hranges _ ha
      obtain ⟨hne, rfl, hknown⟩ := hsome d rfl
      exact ⟨hne, gives_emitObjective ho hsum hknown⟩) hgoal
  refine ⟨⟨inst.name, inst.vars.map Column.ofVariable, rows, goal⟩,
    ⟨rfl, rfl, hrows, hterms, hshows⟩, ?_, hsymbols⟩
  rw [Dialect.text, listing, Dialect.lines_append, Dialect.lines_append, List.map_map,
    dialect.lines_map Statement.comparison, Dialect.lines_flatMap]
  simp only [String.append_assoc, String.empty_append]
  rfl

/-- What a relation says of its second side holds of all elements of a related list. -/
lemma forall_right_of_forall₂ {α β : Type} {R : α → β → Prop} {Q : β → Prop} {as : List α}
    {bs : List β} (hR : ∀ a b, R a b → Q b) (h : List.Forall₂ R as bs) : ∀ b ∈ bs, Q b := by
  induction h with
  | nil => exact List.forall_mem_nil _
  | cons hab _ ih => exact List.forall_mem_cons.2 ⟨hR _ _ hab, ih⟩

/-- The names in products that show terms are names of variables. -/
lemma mem_names_of_shows (hinst : inst.Coherent) {ts : List Term} {ps : List Product}
    (h : List.Forall₂ (Product.Shows inst) ts ps) : ∀ p ∈ ps, p.name ∈ inst.names := by
  refine forall_right_of_forall₂ (fun t p hp => ?_) h
  obtain ⟨x, hx, hname⟩ := Option.map_eq_some_iff.1 hp.name_eq
  rw [← hname]
  exact List.mem_map_of_mem (hinst.mem_vars_of_find? hx).1

/-- The names in the program of the problem of an instance are those of the variables and, if there
is an objective, the one that is new. -/
lemma mem_names_listing_iff (hinst : inst.Coherent) {objectiveVar : String}
    (hp : p.Shows (.sugar objectiveVar) inst) {name : String} :
    (∃ s ∈ (listing p).statements, name ∈ s.names) ↔ name ∈ inst.names ∨
      inst.objective.terms ≠ [] ∧ name = freshName inst.takenNames objectiveVar := by
  -- a column, a row and the three statements of the goal, in the order of the listing
  constructor
  · rintro ⟨s, hs, hname⟩
    simp only [listing, List.mem_append, List.mem_map, List.mem_flatMap] at hs
    rcases hs with (⟨x, hx, rfl⟩ | ⟨r, hr, rfl⟩) | ⟨g, hg, x, hx, hs⟩
    · rw [hp.columns_eq, List.mem_map] at hx
      obtain ⟨y, hy, rfl⟩ := hx
      obtain rfl := List.mem_singleton.1 hname
      exact .inl (List.mem_map_of_mem hy)
    · obtain ⟨q, hq, rfl⟩ := List.mem_map.1 hname
      exact .inl (forall_right_of_forall₂ (fun c r hr => mem_names_of_shows hinst hr.products)
        hp.rows r hr q hq)
    · have hterms : inst.objective.terms ≠ [] := by
        intro hnil
        rw [hp.goal_eq_none hnil] at hg
        cases hg
      have hg := hp.of_goal (Option.mem_toList.1 hg)
      obtain ⟨lo, hi, y, hcolumn, -, hfresh, -⟩ := hg.column
      obtain rfl := Option.mem_unique (Option.mem_toList.1 hx) hcolumn
      simp only [goalStatements, List.mem_cons, List.not_mem_nil, or_false] at hs
      rcases hs with rfl | rfl | rfl
      · exact .inr ⟨hterms, (List.mem_singleton.1 hname).trans hfresh⟩
      · rcases List.mem_cons.1 hname with rfl | hname
        · exact .inr ⟨hterms, hfresh⟩
        · obtain ⟨q, hq, rfl⟩ := List.mem_map.1 hname
          exact .inl (mem_names_of_shows hinst hg.products q hq)
      · exact .inr ⟨hterms, (List.mem_singleton.1 hname).trans hfresh⟩
  · rintro (hname | ⟨hterms, rfl⟩)
    · obtain ⟨x, hx, rfl⟩ := List.mem_map.1 hname
      refine ⟨.int (Column.ofVariable x), ?_, List.mem_singleton_self _⟩
      simp only [listing, hp.columns_eq, List.mem_append, List.mem_map]
      exact .inl (.inl ⟨_, ⟨x, hx, rfl⟩, rfl⟩)
    · obtain ⟨g, hgoal, hg⟩ := hp.goal hterms
      obtain ⟨lo, hi, x, hx, -, hfresh, -⟩ := hg.column
      refine ⟨.int x, ?_, List.mem_singleton.2 hfresh.symm⟩
      simp [listing, hgoal, hx, goalStatements]

/-- All names in the program of the problem of an instance have a property just if those of the
variables have it and, if there is an objective, the one that is new. -/
lemma forall_names_listing_iff (hinst : inst.Coherent) {objectiveVar : String}
    (hp : p.Shows (.sugar objectiveVar) inst) {P : String → Prop} :
    (∀ s ∈ (listing p).statements, ∀ name ∈ s.names, P name) ↔
      (∀ name ∈ inst.names, P name) ∧
        (inst.objective.terms ≠ [] → P (freshName inst.takenNames objectiveVar)) := by
  have hlisted : (∀ s ∈ (listing p).statements, ∀ name ∈ s.names, P name) ↔
      ∀ name, (∃ s ∈ (listing p).statements, name ∈ s.names) → P name :=
    ⟨fun h name ⟨s, hs, hname⟩ => h s hs name hname, fun h s hs name hname => h name ⟨s, hs, hname⟩⟩
  simp only [hlisted, mem_names_listing_iff hinst hp, or_imp, forall_and, and_imp,
    forall_eq_apply_imp_iff]

/-- The program of the problem of an instance can be read back if the name of the instance is a
single line and all names of variables are symbols. -/
lemma isListing_listing (hinst : inst.Coherent) {objectiveVar : String} {p : Problem}
    (hp : p.Shows (.sugar objectiveVar) inst) (hname : ∀ name ∈ p.name, '\n' ∉ name.toList)
    (hvar : IsSymbol objectiveVar) (hvars : ∀ name ∈ inst.names, IsSymbol name) :
    dialect.IsListing (listing p) where
  name_line := hname
  allows s hs := by
    obtain ⟨k, hk⟩ := freshName_eq_underscores inst.takenNames objectiveVar
    have hsymbols := (forall_names_listing_iff hinst hp).2 ⟨hvars, fun _ => hvar.underscores hk⟩
    exact Statement.hasSymbols_iff.2 (hsymbols s hs)

end LinearInterchange.Sugar
