import LinearInterchange.Format.Table.Column
import LinearInterchange.Input.Number
import LinearInterchange.Input.Stream

/-! # Reading free MPS

An MPS file describes an integer program by its columns. Its sections begin with a keyword in the
first column of a line; the lines below hold fields separated by white space. Lines that start
with an asterisk are comments. -/

namespace LinearInterchange.Mps

open Text Table

/-- What the reader refuses. -/
inductive Fault where
  | unknownRow (name : String)
  | badRowType (kind : List Char)
  | secondRow (name : String)
  | badMarker (marker : List Char)
  | badColumnLine
  | noPairs
  | emptyBound
  | objectiveOffset
  | badBound (kind : List Char)
  | unknownColumn (name : String)
  | badBoundType (kind : List Char)
  | rangesSection
  | unknownSection (keyword : List Char)
  | badSense (word : List Char)
  | textAfterHeader (text : List Char)
  | dataOutsideSection
  | badRowLine
  | noEnd
  | badNumber (token : List Char) (fault : NumberFault)
  | broken (a : Assumption)

/-- The wording of a fault. -/
def Fault.refusal : Fault → Refusal
  | .unknownRow name => .malformed ("unknown row `" ++ name ++ "`")
  | .badRowType kind => .malformed ("invalid row type `" ++ String.ofList kind ++ "`")
  | .secondRow name => .malformed ("row `" ++ name ++ "` declared twice")
  | .badMarker marker => .malformed ("invalid marker " ++ String.ofList marker)
  | .badColumnLine =>
    .malformed "expected a column name followed by one or two row/value pairs"
  | .noPairs => .malformed "expected row/value pairs"
  | .emptyBound => .malformed "empty bound"
  | .objectiveOffset => .unsupported "objective offset"
  | .badBound kind => .malformed ("invalid " ++ String.ofList kind ++ " bound")
  | .unknownColumn name => .malformed ("bound on unknown column `" ++ name ++ "`")
  | .badBoundType kind => .malformed ("invalid bound type `" ++ String.ofList kind ++ "`")
  | .rangesSection => .unsupported "RANGES section"
  | .unknownSection keyword => .malformed ("unknown section `" ++ String.ofList keyword ++ "`")
  | .badSense word => .malformed ("invalid objective sense `" ++ String.ofList word ++ "`")
  | .textAfterHeader text => .malformed ("unexpected `" ++ String.ofList text ++ "` after header")
  | .dataOutsideSection => .malformed "data line outside of a section"
  | .badRowLine => .malformed "expected row type and name"
  | .noEnd => .malformed "missing ENDATA"
  | .badNumber token fault => fault.refusal token
  | .broken a => .defect a

/-- The sections of a file. -/
inductive Section where
  | preamble
  | name
  | sense
  | rows
  | columns
  | rhs
  | bounds
  | finished
  deriving DecidableEq

/-- What a row is for. -/
inductive RowKind where
  | objective
  /-- An objective after the first one; its entries mean nothing. -/
  | free
  | constr (rel : Relation)
  deriving DecidableEq

/-- A row with its entries. -/
structure Row where
  name : String
  kind : RowKind
  entries : List Entry := []
  rhs : Coeff := 0

/-- What was read of a file. -/
structure Model where
  part : Section := .preamble
  name : Option String := none
  direction : Direction := .unspecified
  rows : List Row := []
  cols : Columns := []
  /-- The columns that follow are integer. -/
  integerBlock : Bool := false

/-- The coefficient that a token denotes. -/
def readCoeff (token : List Char) : Except Fault Coeff :=
  (Coeff.read token).mapError (.badNumber token)

/-- The fields two by two. -/
def pairs : List (List Char) → Except Fault (List (List Char × List Char))
  | [] => .ok []
  | [_] => .error (.broken .partner)
  | row :: value :: rest => (pairs rest).map ((row, value) :: ·)

namespace Model

/-- The number of the row of a given name. Rows are numbered from zero. -/
def rowNumber (m : Model) (name : List Char) : Except Fault Nat :=
  match m.rows.findIdx? (·.name = String.ofList name) with
  | some n => .ok n
  | none => .error (.unknownRow (String.ofList name))

/-- The row of a given number. -/
def row (m : Model) (n : Nat) : Except Fault Row :=
  match m.rows[n]? with
  | some r => .ok r
  | none => .error (.broken .row)

/-- Changes the row of a given number. -/
def updateRow (m : Model) (n : Nat) (f : Row → Row) : Except Fault Model :=
  if n < m.rows.length then .ok { m with rows := m.rows.modify n f } else .error (.broken .row)

/-- Changes the column of a given number. -/
def updateColumn (m : Model) (n : Nat) (f : Column → Column) : Except Fault Model := do
  return { m with cols := ← (m.cols.update n f).mapError .broken }

/-- The kind of row that a letter announces. Only the first objective counts. -/
def rowKind (m : Model) (kind : List Char) : Except Fault RowKind :=
  if upper kind = ['N'] then
    .ok (if m.rows.any (·.kind = .objective) then .free else .objective)
  else if upper kind = ['L'] then .ok (.constr .le)
  else if upper kind = ['G'] then .ok (.constr .ge)
  else if upper kind = ['E'] then .ok (.constr .eq)
  else .error (.badRowType kind)

/-- Adds a row. -/
def addRow (m : Model) (fields : List (List Char)) : Except Fault Model :=
  match fields with
  | [kind, name] => do
    let kind ← m.rowKind kind
    let name := String.ofList name
    if m.rows.any (·.name = name) then .error (.secondRow name)
    else return { m with rows := m.rows ++ [{ name, kind }] }
  | _ => .error .badRowLine

/-- The fields are those of a marker: the middle one of three or more is the marker word. -/
def marker? : List (List Char) → Option (List Char)
  | _ :: word :: kind :: _ => if upper word = "'MARKER'".toList then some (upper kind) else none
  | _ => none

/-- Begins or ends a block of integer columns. -/
def mark (m : Model) (kind : List Char) : Except Fault Model :=
  if kind = "'INTORG'".toList then .ok { m with integerBlock := true }
  else if kind = "'INTEND'".toList then .ok { m with integerBlock := false }
  else .error (.badMarker kind)

/-- Adds an entry of a column to a row. -/
def addEntry (column : Nat) (m : Model) (entry : List Char × List Char) : Except Fault Model := do
  let coeff ← readCoeff entry.2
  let n ← m.rowNumber entry.1
  m.updateRow n fun r => { r with entries := r.entries ++ [⟨column, coeff⟩] }

/-- Reads a line of the columns section: a marker, or a column with one or two entries. -/
def addColumn (m : Model) (pos : Position) (fields : List (List Char)) : Except Fault Model :=
  match marker? fields with
  | some kind => m.mark kind
  | none =>
    match fields with
    | col :: entries =>
      if entries.length ≠ 2 ∧ entries.length ≠ 4 then .error .badColumnLine
      else do
        let (n, cols) := m.cols.ensure (String.ofList col) pos
        let m := { m with cols }
        let m ← if m.integerBlock then m.updateColumn n ({ · with integer := true }) else pure m
        (← pairs entries).foldlM (addEntry n) m
    | [] => .error .badColumnLine

/-- Sets the right-hand side of a row. An objective has none, except zero. -/
def setRhs (m : Model) (entry : List Char × List Char) : Except Fault Model := do
  let value ← readCoeff entry.2
  let n ← m.rowNumber entry.1
  let r ← m.row n
  match r.kind with
  | .objective => if value = 0 then return m else .error .objectiveOffset
  | .free => return m
  | .constr _ => m.updateRow n ({ · with rhs := value })

/-- Reads a line of right-hand sides. The name of the set, which makes the number of fields odd,
may be missing. -/
def addRhs (m : Model) (fields : List (List Char)) : Except Fault Model :=
  let fields := if fields.length % 2 = 1 then fields.tail else fields
  if fields.isEmpty then .error .noPairs
  else do (← pairs fields).foldlM setRhs m

/-- Magnitudes from here on round to at least `10 ^ 30` in double precision, which stands for
infinity. -/
def infinite : Nat := 999999999999999949515880660992

/-- The bound that a token denotes; there is none if it is infinite. -/
def readBound (token : List Char) : Except Fault (Option Coeff) :=
  let word := (lower token).dropWhile fun c => c == '+' || c == '-'
  if word = "inf".toList ∨ word = "infinity".toList then .ok none
  else if (Decimal.read? token).any (·.magnitudeAtLeast infinite) then .ok none
  else (readCoeff token).map some

/-- The column and the value of a bound. The name of the set may be missing. -/
def boundFields (kind : List Char) (fields : List (List Char)) :
    Except Fault (List Char × Option (List Char)) :=
  let bare := ["BV", "FR", "MI", "PL"].any fun s => kind = s.toList
  match bare, fields with
  | false, [_, col, value] => .ok (col, some value)
  | false, [col, value] => .ok (col, some value)
  | true, [_, col] => .ok (col, none)
  | true, [col] => .ok (col, none)
  | _, _ => .error (.badBound kind)

/-- What a bound of a given kind does to a column. -/
def boundAction (kind : List Char) (value : Option Coeff) : Except Fault (Column → Column) :=
  match String.ofList kind with
  | "UP" => .ok ({ · with upper := value })
  | "LO" => .ok ({ · with lower := value })
  | "FX" => .ok ({ · with lower := value, upper := value })
  | "BV" => .ok Column.setBinary
  | "LI" => .ok ({ · with integer := true, lower := value })
  | "UI" => .ok ({ · with integer := true, upper := value })
  | "MI" => .ok ({ · with lower := none })
  | "PL" => .ok ({ · with upper := none })
  | "FR" => .ok ({ · with lower := none, upper := none })
  | _ => .error (.badBoundType kind)

/-- Reads a line of bounds. -/
def addBound (m : Model) (fields : List (List Char)) : Except Fault Model :=
  match fields with
  | [] => .error .emptyBound
  | kind :: fields => do
    let kind := upper kind
    let (col, value) ← boundFields kind fields
    match m.cols.number? (String.ofList col) with
    | none => .error (.unknownColumn (String.ofList col))
    | some n =>
      let value ←
        match value with
        | some token => readBound token
        | none => pure none
      m.updateColumn n (← boundAction kind value)

/-- The direction that a word announces. -/
def readSense (word : List Char) : Except Fault Direction :=
  if upper word = "MIN".toList ∨ upper word = "MINIMIZE".toList then .ok .minimize
  else if upper word = "MAX".toList ∨ upper word = "MAXIMIZE".toList then .ok .maximize
  else .error (.badSense word)

/-- The section that a keyword begins. -/
def readKeyword (keyword : List Char) : Except Fault Section :=
  match String.ofList (upper keyword) with
  | "NAME" => .ok .name
  | "OBJSENSE" => .ok .sense
  | "ROWS" => .ok .rows
  | "COLUMNS" => .ok .columns
  | "RHS" => .ok .rhs
  | "BOUNDS" => .ok .bounds
  | "ENDATA" => .ok .finished
  | "RANGES" => .error .rangesSection
  | _ => .error (.unknownSection keyword)

/-- Begins the section of a header line. Only a name and a sense may follow its keyword, and
anything the one that ends the file. -/
def addHeader (m : Model) (cs : List Char) : Except Fault Model := do
  let (keyword, rest) := (splitFirst isBlank cs).getD (cs, [])
  let rest := trim rest
  let part ← readKeyword keyword
  let m := { m with part }
  match part with
  | .name => return { m with name := if rest.isEmpty then none else some (String.ofList rest) }
  | .finished => return m
  | .sense =>
    if rest.isEmpty then return m else return { m with direction := ← readSense rest }
  | _ => if rest.isEmpty then return m else .error (.textAfterHeader rest)

/-- Reads a line that is no header, in the section where it stands. -/
def addData (m : Model) (pos : Position) (fields : List (List Char)) : Except Fault Model :=
  match m.part with
  | .preamble | .name | .finished => .error .dataOutsideSection
  | .sense =>
    match fields with
    | [] => .error (.broken .field)
    | word :: _ => do return { m with direction := ← readSense word }
  | .rows => m.addRow fields
  | .columns => m.addColumn pos fields
  | .rhs => m.addRhs fields
  | .bounds => m.addBound fields

/-- Reads a line; one that begins with white space holds data. -/
def addText (m : Model) (pos : Position) (text : String) : Except Fault Model :=
  let cs := trimRight text.toList
  match cs with
  | [] => .ok m
  | '*' :: _ => .ok m
  | c :: _ => if isBlank c then m.addData pos (words cs) else m.addHeader cs

/-- The constraints of the rows, in order. -/
def constrs (m : Model) : List Comparison :=
  m.rows.filterMap fun r =>
    match r.kind with
    | .constr rel => some ⟨r.entries, rel, r.rhs⟩
    | _ => none

/-- The objective: the entries of the first row that is one. -/
def objective (m : Model) : List Entry :=
  (m.rows.find? (·.kind = .objective)).elim [] (·.entries)

end Model

/-- Reads the instance of a stream, up to the end that the file announces. -/
def decode (settings : Settings) (input : InputStream) :
    Except ReadError Instance × InputStream :=
  let step (m : Model) (pos : Position) (text : String) :=
    (pos.report Fault.refusal (m.addText pos text)).map fun m =>
      if m.part = .finished then InputStream.LineStep.done m else .more m
  match input.foldLines step {} input.position with
  | (.error e, input) => (.error e, input)
  | (.ok (m, last), input) =>
    if m.part = .finished then
      (build settings m.name m.cols m.constrs m.direction m.objective, input)
    else (last.report Fault.refusal (.error .noEnd), input)

end LinearInterchange.Mps
