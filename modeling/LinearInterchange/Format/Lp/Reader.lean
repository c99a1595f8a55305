import LinearInterchange.Format.Lp.Section
import LinearInterchange.Format.Lp.Statement
import LinearInterchange.Input.Stream

/-! # Reading the LP format

The reader knows the sections of an integer program: an objective, constraints, bounds, and lists
of integer and binary variables, up to a final `End`. A backslash begins a comment. -/

namespace LinearInterchange.Lp

open Text Table

/-- What was read of a file. The tokens of an objective or of constraints are kept until their
section ends. -/
structure Model where
  part : Section := .preamble
  direction : Direction := .unspecified
  objective : List Entry := []
  constrs : List Comparison := []
  cols : Columns := []
  pending : Tokens := []

namespace Model

/-- Reads the tokens that were kept, at the end of their section. -/
def flush (m : Model) (ending : Position) : Except ReadError Model :=
  match m.part with
  | .objective => do
    let (objective, cols) ← readObjective ending m.cols m.pending
    return { m with objective, cols, pending := [] }
  | .constraints => do
    let (constrs, cols) ← readConstraints ending m.cols m.pending
    return { m with constrs := m.constrs ++ constrs, cols, pending := [] }
  | _ => .ok { m with pending := [] }

/-- Begins a section. The objective has to be the first one. -/
def enter (m : Model) (pos : Position) (part : Section) (direction : Option Direction) :
    Except ReadError Model := do
  let m ← m.flush pos
  if part = .objective then
    if m.part ≠ .preamble then refuse pos .lateObjective
    else return { m with part, direction := direction.getD .unspecified }
  else return { m with part }

/-- Changes the column of a name, which is new if there was none. -/
def changeColumn (pos : Position) (m : Model) (name : List Char) (f : Column → Column) :
    Except ReadError Model := do
  let (n, cols) := m.cols.ensure (String.ofList name) pos
  return { m with cols := ← pos.report Refusal.defect (cols.update n f) }

/-- Marks the column of a name as integer, or as binary in the section for that. -/
def addName (pos : Position) (m : Model) : Token → Except ReadError Model
  | .ident name =>
    m.changeColumn pos name fun c =>
      if m.part = .binary then c.setBinary else { c with integer := true }
  | _ => refuse pos .noNames

/-- Reads text that is no keyword, in the section where it stands. -/
def addTokens (m : Model) (pos : Position) (cs : List Char) : Except ReadError Model :=
  if cs.isEmpty then .ok m
  else
    match Token.scan cs with
    | .error text => refuse pos (.unexpectedInput text)
    | .ok ts =>
      match m.part with
      | .preamble => refuse pos .noObjective
      | .finished => refuse pos (.broken .ending)
      | .objective | .constraints =>
        .ok { m with pending := m.pending ++ ts.map fun t => (t, pos) }
      | .bounds => do
        let (x, action) ← readBound pos ts
        m.changeColumn pos x action
      | .general | .binary => ts.foldlM (addName pos) m

/-- Reads a line, of which the part before a backslash counts. -/
def addText (m : Model) (pos : Position) (text : String) : Except ReadError Model := do
  let cs := trim (text.toList.takeWhile (· != '\\'))
  match ← pos.report Refusal.defect (Section.ofLine? cs) with
  | some (part, direction, rest) =>
    let m ← m.enter pos part direction
    if part = .finished then return m else m.addTokens pos (trim rest)
  | none => m.addTokens pos cs

end Model

/-- Reads the instance of a stream, up to the end that the file announces. -/
def decode (settings : Settings) (input : InputStream) :
    Except ReadError Instance × InputStream :=
  let step (m : Model) (pos : Position) (text : String) :=
    (m.addText pos text).map fun m =>
      if m.part = .finished then InputStream.LineStep.done m else .more m
  match input.foldLines step {} input.position with
  | (.error e, input) => (.error e, input)
  | (.ok (m, last), input) =>
    if m.part = .finished then
      (build settings none m.cols m.constrs m.direction m.objective, input)
    else (refuse last .noEnd, input)

end LinearInterchange.Lp
