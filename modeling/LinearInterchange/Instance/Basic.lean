import LinearInterchange.Constraint
import LinearInterchange.IdCounter
import LinearInterchange.Objective

/-! # Instances

An instance holds declared variables, linear constraints over them and an objective. Variables
and constraints are kept in the order of declaration. Declarations that would give two variables
one id or one name are refused, as are constraints and objectives over undeclared variables.

The variables are kept three times: as ids in the order of declaration, in a map from ids to
variables, and in a map from names to ids. The operations change these one after another, and each
returns the instance as it leaves it behind, also where it is refused. -/

namespace LinearInterchange

/-- Refusals of an instance. -/
inductive InstanceError where
  | duplicateName (name : String)
  | duplicateId (id : UInt32)
  | undeclared (v : Var)
  | value (e : ValueError)
  deriving DecidableEq

/-- The wording of a refusal. -/
def InstanceError.message : InstanceError → String
  | .duplicateName name => "variable `" ++ name ++ "` declared more than once"
  | .duplicateId id => "variable id " ++ toString id ++ " declared more than once"
  | .undeclared v => "reference to undeclared variable " ++ toString v
  | .value e => e.message

/-- An integer linear optimisation instance. The counter of ids and the number of auxiliary
variables are kept beside the variables. Maps are kept as lists of their entries. -/
structure Instance where
  name : Option String := none
  /-- The ids of the variables in the order of declaration. -/
  order : List Var := []
  /-- The map from ids to variables. -/
  byId : List Variable := []
  /-- The map from names to ids. -/
  byName : List (String × Var) := []
  constrs : List LinConstraint := []
  objective : Objective := {}
  ids : IdCounter := {}
  auxCount : Nat := 0
  deriving DecidableEq

/-- Puts an entry into a map. It takes the place of the entry with its key if there is one. -/
def putEntry {α κ : Type} [DecidableEq κ] (key : α → κ) (x : α) (entries : List α) : List α :=
  if entries.any (key · = key x) then entries.map fun y => if key y = key x then x else y
  else entries ++ [x]

/-- The name with the least number of underscores in front that is not among the taken ones. -/
def freshName (taken : List String) (name : String) : String :=
  if name ∈ taken then freshName (taken.erase name) ("_" ++ name) else name
termination_by taken.length
decreasing_by
  rename_i h
  have := List.length_pos_of_mem h
  rw [List.length_erase_of_mem h]
  omega

namespace Instance

/-! ### Looking up -/

/-- The declared variable with a given id. -/
def find? (inst : Instance) (v : Var) : Option Variable :=
  inst.byId.find? (·.var = v)

/-- The variable with a given name. -/
def varNamed? (inst : Instance) (name : String) : Option Var :=
  (inst.byName.find? (·.1 = name)).map (·.2)

/-- The domain of a declared variable. -/
def domain? (inst : Instance) (v : Var) : Option Domain :=
  (inst.find? v).map (·.domain)

/-- The name of a declared variable. -/
def nameOf? (inst : Instance) (v : Var) : Option String :=
  (inst.find? v).map (·.name)

/-- The variable is declared. -/
def declares (inst : Instance) (v : Var) : Bool :=
  inst.byId.any (·.var = v)

/-- The names that cannot be given to another variable. -/
def takenNames (inst : Instance) : List String :=
  inst.byName.map (·.1)

/-- The declared variables in the order of declaration. -/
def vars (inst : Instance) : List Variable :=
  inst.order.filterMap inst.find?

/-- The names of the declared variables in the order of declaration. -/
def names (inst : Instance) : List String :=
  inst.vars.map (·.name)

/-- The highest variable id in use. -/
def maxVar? (inst : Instance) : Option Var :=
  inst.ids.last?

/-- The first variable of the terms that is not declared. -/
def undeclaredIn? (inst : Instance) (ts : List Term) : Option Var :=
  (ts.find? fun t => !inst.declares t.var).map (·.var)

/-! ### Changing step by step

Each operation returns the instance that it leaves behind and how it ended. -/

namespace Edit

/-- Inserts a variable whose id is not in use. Its name must be free. -/
def insert (inst : Instance) (x : Variable) : Instance × Except InstanceError Unit :=
  if x.name ∈ inst.takenNames then (inst, .error (.duplicateName x.name))
  else
    let inst := { inst with ids := (inst.ids.mark x.var).2 }
    let inst := { inst with byName := putEntry (·.1) (x.name, x.var) inst.byName }
    let inst := { inst with byId := putEntry (·.var) x inst.byId }
    let inst := { inst with order := inst.order ++ [x.var] }
    (inst, .ok ())

/-- Declares a user variable with the next id. -/
def declare (inst : Instance) (name : String) (domain : Domain) :
    Instance × Except InstanceError Var :=
  match Var.ofId inst.ids.used with
  | .error e => (inst, .error (.value e))
  | .ok v =>
    let (inst, outcome) := insert inst ⟨v, name, domain, .user⟩
    (inst, outcome.map fun _ => v)

/-- Declares a user variable with a given id. Ids may leave gaps. -/
def declareWithId (inst : Instance) (v : Var) (name : String) (domain : Domain) :
    Instance × Except InstanceError Unit :=
  if inst.declares v then (inst, .error (.duplicateId v.id))
  else insert inst ⟨v, name, domain, .user⟩

/-- Declares a variable with a given id and origin; an auxiliary one counts towards the numbering
of later auxiliaries. -/
def restore (inst : Instance) (x : Variable) : Instance × Except InstanceError Unit :=
  if inst.declares x.var then (inst, .error (.duplicateId x.var.id))
  else
    match insert inst x with
    | (inst, .error e) => (inst, .error e)
    | (inst, .ok ()) =>
      if x.origin = .auxiliary then ({ inst with auxCount := inst.auxCount + 1 }, .ok ())
      else (inst, .ok ())

/-- Introduces an auxiliary variable with the next id. The `n`-th one is named `a<n>`, with as
many underscores in front as are needed to make the name new. -/
def newAux (inst : Instance) (domain : Domain) : Instance × Except ValueError Var :=
  match Var.ofId inst.ids.used with
  | .error e => (inst, .error e)
  | .ok v =>
    let inst := { inst with ids := (inst.ids.mark v).2 }
    let inst := { inst with auxCount := inst.auxCount + 1 }
    let name := freshName inst.takenNames ("a" ++ toString inst.auxCount)
    let inst := { inst with byId := putEntry (·.var) ⟨v, name, domain, .auxiliary⟩ inst.byId }
    let inst := { inst with byName := putEntry (·.1) (name, v) inst.byName }
    let inst := { inst with order := inst.order ++ [v] }
    (inst, .ok v)

/-- Changes the domain of a declared variable. -/
def setDomain (inst : Instance) (v : Var) (domain : Domain) :
    Instance × Except InstanceError Unit :=
  if inst.declares v then
    let byId := inst.byId.map fun x => if x.var = v then { x with domain } else x
    ({ inst with byId }, .ok ())
  else (inst, .error (.undeclared v))

/-- Appends a constraint over declared variables. -/
def addConstr (inst : Instance) (c : LinConstraint) : Instance × Except InstanceError Unit :=
  match inst.undeclaredIn? c.terms with
  | some v => (inst, .error (.undeclared v))
  | none => ({ inst with constrs := inst.constrs ++ [c] }, .ok ())

/-- Replaces the objective by one over declared variables. -/
def setObjective (inst : Instance) (o : Objective) : Instance × Except InstanceError Unit :=
  match inst.undeclaredIn? o.terms with
  | some v => (inst, .error (.undeclared v))
  | none => ({ inst with objective := o }, .ok ())

/-- What an operation returns and the instance that it leaves behind, for callers that give up the
instance if the operation is refused. -/
def result {ε α : Type} (ending : Instance × Except ε α) : Except ε (α × Instance) :=
  ending.2.map (·, ending.1)

end Edit

/-! ### Changing or giving up -/

/-- Declares a user variable with the next id. -/
def declare (inst : Instance) (name : String) (domain : Domain) :
    Except InstanceError (Var × Instance) :=
  Edit.result (Edit.declare inst name domain)

/-- Declares a user variable with a given id. -/
def declareWithId (inst : Instance) (v : Var) (name : String) (domain : Domain) :
    Except InstanceError Instance :=
  (Edit.result (Edit.declareWithId inst v name domain)).map (·.2)

/-- Declares a variable with a given id and origin. -/
def restore (inst : Instance) (x : Variable) : Except InstanceError Instance :=
  (Edit.result (Edit.restore inst x)).map (·.2)

/-- Introduces an auxiliary variable. -/
def newAux (inst : Instance) (domain : Domain) : Except ValueError (Var × Instance) :=
  Edit.result (Edit.newAux inst domain)

/-- Changes the domain of a declared variable. -/
def setDomain (inst : Instance) (v : Var) (domain : Domain) : Except InstanceError Instance :=
  (Edit.result (Edit.setDomain inst v domain)).map (·.2)

/-- Appends a constraint over declared variables. -/
def addConstr (inst : Instance) (c : LinConstraint) : Except InstanceError Instance :=
  (Edit.result (Edit.addConstr inst c)).map (·.2)

/-- Replaces the objective by one over declared variables. -/
def setObjective (inst : Instance) (o : Objective) : Except InstanceError Instance :=
  (Edit.result (Edit.setObjective inst o)).map (·.2)

/-! ### Changes that are never refused -/

/-- The instance under a new name. -/
def setName (inst : Instance) (name : String) : Instance :=
  { inst with name := some name }

/-- Takes all constraints out. -/
def takeConstrs (inst : Instance) : List LinConstraint × Instance :=
  (inst.constrs, { inst with constrs := [] })

/-- Appends a term to the objective, whether or not its variable is declared. -/
def addObjectiveTerm (inst : Instance) (t : Term) : Instance :=
  { inst with objective := { inst.objective with terms := inst.objective.terms ++ [t] } }

/-- Changes the direction of the objective. -/
def setDirection (inst : Instance) (d : Direction) : Instance :=
  { inst with objective := { inst.objective with direction := d } }

/-! ### Arities -/

/-- The greatest arity of a constraint, 0 if there is none. -/
def maxArity (inst : Instance) : Except ValueError Nat :=
  inst.constrs.foldlM (fun n c => return max n (← c.arity)) 0

/-! ### Satisfaction -/

/-- The truth of all constraints, decided in order: the first one that fails or cannot be
evaluated settles the answer. -/
def allHold? (value : Var → Option Int64) : List LinConstraint → Option Bool
  | [] => some true
  | c :: cs =>
    match c.evaluate value with
    | some true => allHold? value cs
    | verdict => verdict

/-- The values of the variables of a sum lie in their domains. -/
def inDomains (inst : Instance) (value : Var → Option Int64) (ts : List Term) : Bool :=
  ts.all fun t =>
    match inst.domain? t.var, value t.var with
    | some d, some x => d.contains x
    | _, _ => true

/-- The assignment satisfies the constraints within the domains of their variables. There is no
answer if a value that is needed is missing. -/
def isSatisfiedBy (inst : Instance) (value : Var → Option Int64) : Option Bool :=
  (allHold? value inst.constrs).map fun holds =>
    holds && inst.constrs.all fun c => inst.inDomains value c.terms

/-! ### Text -/

/-- The text of an instance: its name, its variables, its objective and its constraints, one to a
line. -/
def toText (inst : Instance) : String :=
  let vars := inst.vars.map fun x =>
    "  " ++ toString x.var ++ " (" ++ x.name ++ "): " ++ toString x.domain ++ "\n"
  let constrs := inst.constrs.map fun c => "  " ++ toString c ++ "\n"
  "instance " ++ inst.name.getD "<anonymous>" ++ "\n" ++ String.join vars
    ++ "  " ++ toString inst.objective ++ "\n" ++ String.join constrs

instance : ToString Instance := ⟨toText⟩

end Instance

end LinearInterchange
