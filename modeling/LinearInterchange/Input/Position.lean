/-! # Positions and faults of inputs

A position counts lines from one and bytes from zero. Readers report what they refuse together
with the position where they found it. -/

namespace LinearInterchange

/-- A place in an input: the number of its line and the number of bytes before it. -/
structure Position where
  line : Nat
  offset : Nat
  deriving DecidableEq

/-- The text of a position. -/
def Position.toText (p : Position) : String :=
  "line " ++ toString p.line ++ " (byte " ++ toString p.offset ++ ")"

instance : ToString Position := ⟨Position.toText⟩

/-- A place to which an input can be moved: the bytes and the lines before it, and whether nothing
comes after it. -/
structure Cursor where
  offset : Nat := 0
  line : Nat := 0
  atEnd : Bool := false
  deriving DecidableEq

/-- Failures of the system that holds inputs and outputs. -/
inductive SystemFault where
  | invalidUtf8
  | cannotRewind
  | unexpectedEnd
  | notFound
  | notADirectory
  | isADirectory
  | nameTooLong
  /-- A path that is opened holds the zero character. -/
  | zeroInName
  | invalidArgument
  /-- A path ends with a name for a directory on the way. -/
  | busy
  /-- The directory for outputs does not exist. -/
  | noOutputDirectory (path : String)
  /-- A stream for outputs fails in its own way. -/
  | device (wording : String)
  deriving DecidableEq

/-- The wording of a failure. -/
def SystemFault.message : SystemFault → String
  | .invalidUtf8 => "stream did not contain valid UTF-8"
  | .cannotRewind => "cannot rewind a non-seekable stream"
  | .unexpectedEnd => "unexpected end of file"
  | .notFound => "No such file or directory (os error 2)"
  | .notADirectory => "Not a directory (os error 20)"
  | .isADirectory => "Is a directory (os error 21)"
  | .nameTooLong => "File name too long (os error 36)"
  | .zeroInName => "file name contained an unexpected NUL byte"
  | .invalidArgument => "Invalid argument (os error 22)"
  | .busy => "Device or resource busy (os error 16)"
  | .noOutputDirectory path => "output directory " ++ path ++ " does not exist"
  | .device wording => wording

/-- What readers take for granted because an earlier step has seen to it. -/
inductive Assumption where
  /-- A line that is not blank has a field. -/
  | field
  /-- A field of a pair has a partner. -/
  | partner
  /-- There is a row of the number under which a row was found. -/
  | row
  /-- There is a column of the number under which a column was found. -/
  | column
  /-- A column has become a variable. -/
  | variable
  /-- The end that a file announces is the end of what is read. -/
  | ending
  /-- The text of a keyword ends between two characters of the line. -/
  | keyword
  /-- A bracket that is closed has been opened. -/
  | bracket
  /-- A place in a text lies on one of its lines. -/
  | line
  /-- The number of an item is an id. -/
  | itemNumber
  /-- The id and the name of an item are new. -/
  | itemVariable
  /-- The variables of all items are declared. -/
  | itemTerms
  deriving DecidableEq

/-- What a reader refuses: a breach of its syntax, or a construct that instances cannot hold. It
also has to give up where something that it takes for granted does not hold. -/
inductive Refusal where
  | malformed (cause : String)
  | unsupported (feature : String)
  | defect (broken : Assumption)
  deriving DecidableEq

/-- Why an input was not read. -/
inductive ReadError where
  | refused (pos : Position) (refusal : Refusal)
  | system (fault : SystemFault)
  deriving DecidableEq

/-- The wording of a failed reading. -/
def ReadError.message : ReadError → String
  | .refused pos (.malformed cause) => "malformed input at " ++ toString pos ++ ": " ++ cause
  | .refused pos (.unsupported feature) =>
    "unsupported feature at " ++ toString pos ++ ": " ++ feature
  | .refused pos (.defect _) => "reader defect at " ++ toString pos
  | .system fault => "IO error: " ++ fault.message

/-- Puts a position to what was refused there. -/
def Position.report {ε α : Type} (pos : Position) (refusal : ε → Refusal) (x : Except ε α) :
    Except ReadError α :=
  x.mapError fun e => .refused pos (refusal e)

end LinearInterchange
