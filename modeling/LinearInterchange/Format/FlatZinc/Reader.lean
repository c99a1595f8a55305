import LinearInterchange.Format.FlatZinc.Scope
import LinearInterchange.Input.Stream
import LinearInterchange.Strategy

/-! # Reading FlatZinc

The reader knows models whose constraints are linear over integers and truth values. A stream
holds one model; its items end with semicolons, and a percent sign begins a comment up to and
including the end of its line. -/

namespace LinearInterchange.FlatZinc

open Text

/-- The magnitude that bounds variables without a domain, if there is one. -/
structure Settings where
  defaultUpper : Option Int64 := none

/-- The settings among the options of a reader. -/
def Settings.ofOptions (opts : Options) : Except ConfigError Settings := do
  opts.checkReaderKeys "fznimf" ["default_ub"]
  match ← opts.getWord "default_ub" with
  | none => return {}
  | some ub =>
    if ub < 0 then .error (.invalidValue "default_ub" (toString ub) "must not be negative")
    else return { defaultUpper := some ub }

/-! ### Splitting a model into items -/

/-- A text being split: the number of bytes before the next character, whether that is in a
comment, where the current item begins, and its characters so far in reverse. -/
structure Splitter where
  offset : Nat := 0
  comment : Bool := false
  start : Option Nat := none
  current : List Char := []

namespace Splitter

/-- Passes a character that ends no item. -/
def push (s : Splitter) (c : Char) : Splitter :=
  let offset := s.offset + c.utf8Size
  if s.comment then { s with offset, comment := c != '\n' }
  else if c = '%' then { s with offset, comment := true }
  else
    { s with
      offset
      start := s.start <|> (if isBlank c then none else some s.offset)
      current := c :: s.current }

/-- The items of a text with the places where they begin. A blank item is where its end is. The
place of an item that has no end comes last. -/
def items (s : Splitter) : List Char → List (Nat × List Char) × Option Nat
  | [] => ([], s.start)
  | c :: cs =>
    if c = ';' ∧ !s.comment then
      let (items, unterminated) := items { offset := s.offset + c.utf8Size } cs
      ((s.start.getD s.offset, s.current.reverse) :: items, unterminated)
    else items (s.push c) cs

end Splitter

/-- The position of a place in a text that is at `base`, given the places where its lines start. -/
def locate (starts : List Nat) (base : Position) (offset : Nat) : Except Assumption Position :=
  match (starts.takeWhile (· ≤ offset)).length with
  | 0 => .error .line
  | n + 1 => .ok ⟨base.line + n, base.offset + offset⟩

/-- The items of a text with the positions where they begin. -/
def splitItems (starts : List Nat) (base : Position) (cs : List Char) :
    Except ReadError (List (Position × List Char)) := do
  let locate (offset : Nat) := base.report Refusal.defect (locate starts base offset)
  let (items, unterminated) := Splitter.items {} cs
  let items ← items.mapM fun (offset, text) => return (← locate offset, text)
  match unterminated with
  | none => return items
  | some offset => (← locate offset).report Fault.refusal (.error .unterminated)

/-! ### Building the instance -/

/-- The instance read so far, the names of the model, and whether its goal was seen. -/
structure Model where
  inst : Instance := {}
  scope : Scope := {}
  solved : Bool := false

/-- The domain of a variable of a given type. -/
def VarType.domain (settings : Settings) (name : String) : VarType → Except Fault Domain
  | .bool => .ok .bool
  | .range lb ub => (Domain.ofBounds lb ub).mapError .badValue
  | .int =>
    match settings.defaultUpper with
    | some ub => (Domain.ofBounds (-ub) ub).mapError .badValue
    | none => .error (.unbounded name)
  | .other text => .error (.badType text)

/-- The comparison of a constraint. -/
def relationOf (name : String) : Except Fault Relation :=
  match name with
  | "int_lin_le" | "bool_lin_le" => .ok .le
  | "int_lin_eq" | "bool_lin_eq" => .ok .eq
  | "int_lin_ge" => .ok .ge
  | _ => .error (.badConstraint name)

namespace Model

/-- Adds a constraint. -/
def addConstr (m : Model) (c : LinConstraint) : Except Fault Model := do
  return { m with inst := ← (m.inst.addConstr c).mapError .badVariable }

/-- Declares a variable. A value or an alias becomes an equality. -/
def addVar (settings : Settings) (m : Model) (type : VarType) (name : String)
    (value : Option Expr) : Except Fault Model := do
  let domain ← type.domain settings name
  let (v, inst) ← (m.inst.declare name domain).mapError .badVariable
  let m := { m with inst }
  match value with
  | none => return m
  | some e => m.addConstr (← linear [1] [.var v] .eq (← m.scope.operand m.inst e))

/-- Adds an item. -/
def add (settings : Settings) (m : Model) : Item → Except Fault Model
  | .param _ (.array _) => .error .arrayForParameter
  | .param name value => do
    let n ← m.scope.number value
    return { m with
      scope := { m.scope with params := m.scope.params.insert (String.ofList name) n } }
  | .var type name value => m.addVar settings type (String.ofList name) value
  | .array true name value => do
    let ops ← m.scope.operands m.inst value
    return { m with
      scope := { m.scope with varArrays := m.scope.varArrays.insert (String.ofList name) ops } }
  | .array false name value => do
    let ns ← m.scope.numbers value
    return { m with
      scope := { m.scope with paramArrays := m.scope.paramArrays.insert (String.ofList name) ns } }
  | .constr name args => do
    let rel ← relationOf (String.ofList name)
    match args with
    | [coeffs, ops, rhs] => do
      let coeffs ← m.scope.numbers coeffs
      let ops ← m.scope.operands m.inst ops
      let rhs ← m.scope.operand m.inst rhs
      m.addConstr (← linear coeffs ops rel rhs)
    | _ => .error (.wrongArguments (String.ofList name))
  | .solve .satisfy => .ok { m with solved := true }
  | .solve (.optimize direction e) => do
    match ← m.scope.operand m.inst e with
    | .const _ => .error .constantObjective
    | .var v => do
      let inst ← (m.inst.setObjective ⟨direction, [⟨.ofWord 1, v⟩]⟩).mapError .badVariable
      return { m with inst, solved := true }

/-- Adds the item with a given text; a blank one adds nothing. Nothing may follow the goal. -/
def addText (settings : Settings) (m : Model) (text : List Char) : Except Fault Model := do
  let cs := trim text
  if cs.isEmpty then return m
  else if m.solved then .error .afterGoal
  else m.add settings (← (Item.read cs).mapError .item)

/-- Adds the items of a model. -/
def addAll (settings : Settings) (m : Model) (items : List (Position × List Char)) :
    Except ReadError Model :=
  items.foldlM (fun m (pos, text) => pos.report Fault.refusal (m.addText settings text)) m

end Model

/-- The instance of a model with a given text and the places where its lines start. Its first
character is at `base`, and what comes after it is at `ending`. -/
def decodeText (settings : Settings) (base ending : Position) (starts : List Nat)
    (cs : List Char) : Except ReadError Instance := do
  let m ← Model.addAll settings {} (← splitItems starts base cs)
  if m.solved then return m.inst else ending.report Fault.refusal (.error .noGoal)

/-- The lines of a text one after another, and the places where they start, the last one first. -/
structure Lines where
  text : String := ""
  starts : List Nat := []

/-- Appends a line. -/
def Lines.add (l : Lines) (line : String) : Lines :=
  ⟨l.text ++ line, l.text.utf8ByteSize :: l.starts⟩

/-- The places where lines start, in order. A text without lines has a start as well. -/
def Lines.table (l : Lines) : List Nat :=
  if l.starts.isEmpty then [0] else l.starts.reverse

/-- Reads the model of a stream, up to its end. -/
def decode (settings : Settings) (input : InputStream) :
    Except ReadError Instance × InputStream :=
  let base := input.position
  let step (l : Lines) (_ : Position) (line : String) :
      Except ReadError (InputStream.LineStep Lines) := .ok (.more (l.add line))
  match input.foldLines step {} base with
  | (.error e, input) => (.error e, input)
  | (.ok (l, _), input) =>
    (decodeText settings base input.position l.table l.text.toList, input)

end LinearInterchange.FlatZinc
