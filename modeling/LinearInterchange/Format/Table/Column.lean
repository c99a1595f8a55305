import LinearInterchange.Input.Position
import LinearInterchange.Instance.Basic
import LinearInterchange.Strategy

/-! # Columns

Formats that describe an instance as a table speak of columns instead of variables. Columns are
numbered from zero in the order in which they first appear, and their entries are kept under these
numbers until the variables are declared. Bounds are rationals or missing; the domain holds the
integers between them. -/

namespace LinearInterchange.Table

/-- How columns become variables. -/
structure Settings where
  /-- The upper bound of columns that have none. -/
  defaultUpper : Option Int64 := none
  /-- Columns are integer even if they are not marked so. -/
  allInteger : Bool := false

/-- The settings among the options of a reader. -/
def Settings.ofOptions (opts : Options) (component : String) : Except ConfigError Settings := do
  opts.checkReaderKeys component ["default_ub", "all_integer"]
  let defaultUpper ← opts.getWord "default_ub"
  let allInteger ← opts.getBool "all_integer"
  return { defaultUpper, allInteger := allInteger.getD false }

/-- A column. A missing bound is infinite. -/
structure Column where
  name : String
  /-- Where the column first appears. -/
  pos : Position
  integer : Bool := false
  binary : Bool := false
  lower : Option Coeff := some 0
  upper : Option Coeff := none
  deriving DecidableEq

/-- A weighted column, which is given by its number. -/
structure Entry where
  column : Nat
  coeff : Coeff
  deriving DecidableEq

/-- The comparison of a sum of weighted columns with a right-hand side. -/
structure Comparison where
  entries : List Entry
  rel : Relation
  rhs : Coeff
  deriving DecidableEq

/-- Why columns and comparisons make no instance. -/
inductive ColumnFault where
  | continuous (name : String)
  | noLower (name : String)
  | noUpper (name : String)
  | badDomain (name : String) (e : ValueError)
  | badVariable (e : InstanceError)
  | broken (a : Assumption)

/-- The wording of a fault. -/
def ColumnFault.refusal : ColumnFault → Refusal
  | .continuous name => .unsupported ("continuous variable `" ++ name ++ "`")
  | .noLower name => .unsupported ("variable `" ++ name ++ "` has no lower bound")
  | .noUpper name =>
    .unsupported ("variable `" ++ name ++ "` has no upper bound and no `default_ub` is set")
  | .badDomain name e => .malformed ("variable `" ++ name ++ "`: " ++ e.message)
  | .badVariable e => .malformed e.message
  | .broken a => .defect a

namespace Column

/-- Marks a column as one for the values 0 and 1. -/
def setBinary (c : Column) : Column :=
  { c with integer := true, binary := true, lower := some 0, upper := some 1 }

/-- The domain of a column. Its bounds are rounded inwards. -/
def domain (settings : Settings) (c : Column) : Except ColumnFault Domain :=
  if !c.integer && !settings.allInteger then .error (.continuous c.name)
  else if c.binary && c.lower = some 0 && c.upper = some 1 then .ok .bool
  else
    match c.lower, c.upper, settings.defaultUpper with
    | none, _, _ => .error (.noLower c.name)
    | some lb, some ub, _ => (Domain.ofBounds lb.ceil ub.floor).mapError (.badDomain c.name)
    | some lb, none, some ub => (Domain.ofBounds lb.ceil ub).mapError (.badDomain c.name)
    | some _, none, none => .error (.noUpper c.name)

/-- Declares the variable of a column, after those of other columns. -/
def declare (settings : Settings) (declared : List Var × Instance) (c : Column) :
    Except ReadError (List Var × Instance) :=
  c.pos.report ColumnFault.refusal do
    let domain ← c.domain settings
    let (v, inst) ← (declared.2.declare c.name domain).mapError .badVariable
    return (declared.1 ++ [v], inst)

end Column

/-- Columns in the order in which they first appear. -/
abbrev Columns := List Column

namespace Columns

/-- The number of the column of that name. -/
def number? (cols : Columns) (name : String) : Option Nat :=
  cols.findIdx? (·.name = name)

/-- The number of the column of that name, which is new if there was none. -/
def ensure (cols : Columns) (name : String) (pos : Position) : Nat × Columns :=
  match cols.number? name with
  | some n => (n, cols)
  | none => (cols.length, cols ++ [({ name, pos } : Column)])

/-- Changes the column of that number. -/
def update (cols : Columns) (n : Nat) (f : Column → Column) : Except Assumption Columns :=
  if n < cols.length then .ok (cols.modify n f) else .error .column

/-- Declares the variables of the columns in order. -/
def declareAll (settings : Settings) (cols : Columns) (inst : Instance) :
    Except ReadError (List Var × Instance) :=
  cols.foldlM (Column.declare settings) ([], inst)

end Columns

/-- The term of a weighted column, given the variables of all columns. -/
def Entry.term (vars : List Var) (e : Entry) : Except ColumnFault Term :=
  match vars[e.column]? with
  | some v => .ok ⟨e.coeff, v⟩
  | none => .error (.broken .variable)

/-- Adds the constraint of a comparison, given the variables of all columns. -/
def addComparison (vars : List Var) (inst : Instance) (c : Comparison) :
    Except ColumnFault Instance := do
  let terms ← c.entries.mapM (Entry.term vars)
  (inst.addConstr ⟨terms, c.rel, c.rhs⟩).mapError .badVariable

/-- The instance with the variables of the columns and the given constraints and objective. -/
def build (settings : Settings) (name : Option String) (cols : Columns)
    (constrs : List Comparison) (direction : Direction) (objective : List Entry) :
    Except ReadError Instance := do
  let (vars, inst) ← cols.declareAll settings { name }
  Position.report ⟨0, 0⟩ ColumnFault.refusal do
    let inst ← constrs.foldlM (addComparison vars) inst
    let terms ← objective.mapM (Entry.term vars)
    (inst.setObjective ⟨direction, terms⟩).mapError .badVariable

end LinearInterchange.Table
