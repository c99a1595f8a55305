import LinearInterchange.Format.Exchange.Line
import LinearInterchange.Input.Number
import LinearInterchange.Input.Stream
import LinearInterchange.Instance.Basic

/-! # Reading the exchange format

A stream in the exchange format holds one instance. Variables have to be declared before they are
used; there is at most one objective. -/

namespace LinearInterchange.Exchange

open Text

/-- What the reader refuses. -/
inductive Fault where
  | badLine (text : List Char)
  | badValue (e : ValueError)
  | badVariable (e : InstanceError)
  | undeclaredId (id : UInt32)
  | secondObjective
  | badNumber (token : List Char) (fault : NumberFault)

/-- The wording of a fault. -/
def Fault.refusal : Fault → Refusal
  | .badLine text => .malformed ("invalid line `" ++ String.ofList text ++ "`")
  | .badValue e => .malformed e.message
  | .badVariable e => .malformed e.message
  | .undeclaredId id => .malformed ("undeclared variable id " ++ toString id)
  | .secondObjective => .malformed "more than one objective"
  | .badNumber token fault => fault.refusal token

/-- The instance read so far, and whether it has got its objective. -/
structure State where
  inst : Instance := {}
  hasObjective : Bool := false

/-- The coefficient that a token denotes. -/
def readCoeff (token : List Char) : Except Fault Coeff :=
  (Coeff.read token).mapError (.badNumber token)

/-- The terms that are written, over declared variables. -/
def readTerms (inst : Instance) (ts : List TermText) : Except Fault (List Term) :=
  ts.mapM fun (token, id) => do
    let v ← (Var.ofId id).mapError .badValue
    if inst.declares v then
      return ⟨← readCoeff token, v⟩
    else .error (.undeclaredId id)

/-- The domain with the given bounds, the Boolean one if there are none. -/
def readDomain : Option (Int64 × Int64) → Except Fault Domain
  | none => .ok .bool
  | some (lb, ub) => (Domain.ofBounds lb ub).mapError .badValue

/-- Adds a line to what was read so far. -/
def State.add (s : State) : Line → Except Fault State
  | .comment => .ok s
  | .name n => .ok { s with inst := s.inst.setName (String.ofList n) }
  | .var id n bounds aux => do
    let v ← (Var.ofId id).mapError .badValue
    let domain ← readDomain bounds
    let origin := if aux then Origin.auxiliary else .user
    let inst ← (s.inst.restore ⟨v, String.ofList n, domain, origin⟩).mapError .badVariable
    return { s with inst }
  | .objective d ts =>
    if s.hasObjective then .error .secondObjective
    else do
      let terms ← readTerms s.inst ts
      let inst ← (s.inst.setObjective ⟨d, terms⟩).mapError .badVariable
      return { inst, hasObjective := true }
  | .constr rel rhs ts => do
    let rhs ← readCoeff rhs
    let terms ← readTerms s.inst ts
    let inst ← (s.inst.addConstr ⟨terms, rel, rhs⟩).mapError .badVariable
    return { s with inst }

/-- Adds the line with a given text; a blank one adds nothing. -/
def State.addText (s : State) (text : String) : Except Fault State :=
  let cs := trimRight text.toList
  if cs.isEmpty then .ok s
  else
    match Line.read? cs with
    | some line => s.add line
    | none => .error (.badLine cs)

/-- Reads the instance of a stream, up to its end. -/
def decode (input : InputStream) : Except ReadError Instance × InputStream :=
  let step (s : State) (pos : Position) (text : String) :=
    (pos.report Fault.refusal (s.addText text)).map InputStream.LineStep.more
  let (outcome, input) := input.foldLines step {} input.position
  (outcome.map fun (s, _) => s.inst, input)

end LinearInterchange.Exchange
