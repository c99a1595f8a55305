import LinearInterchange.Input.Position
import LinearInterchange.Objective
import LinearInterchange.Text.Blank

/-! # Sections of the LP format -/

namespace LinearInterchange.Lp

open Text

/-- The sections of a file. -/
inductive Section where
  | preamble
  | objective
  | constraints
  | bounds
  | general
  | binary
  | finished
  deriving DecidableEq

namespace Section

/-- The keywords with the sections that they begin and the directions that they set. Longer
spellings of a section come before shorter ones. -/
def keywords : List (String × Section × Option Direction) :=
  [("minimize", objective, some .minimize), ("minimum", objective, some .minimize),
    ("min", objective, some .minimize), ("maximize", objective, some .maximize),
    ("maximum", objective, some .maximize), ("max", objective, some .maximize),
    ("subject to", constraints, none), ("such that", constraints, none),
    ("s.t.", constraints, none), ("st", constraints, none), ("bounds", bounds, none),
    ("bound", bounds, none), ("generals", general, none), ("general", general, none),
    ("gen", general, none), ("binaries", binary, none), ("binary", binary, none),
    ("bin", binary, none), ("end", finished, none)]

/-- A line begins with a keyword in any case. White space or nothing has to follow. -/
def beginsWith (keyword : String) (cs : List Char) : Bool :=
  keyword.toList.isPrefixOf (lower cs) && ((lower cs).drop keyword.length).head?.all isBlank

/-- The section that a line begins, the direction that it sets, and the rest of the line, from
the byte on at which the keyword is at its end. -/
def ofLine? (cs : List Char) :
    Except Assumption (Option (Section × Option Direction × List Char)) :=
  match keywords.find? fun (keyword, _, _) => beginsWith keyword cs with
  | none => .ok none
  | some (keyword, part, direction) =>
    match dropBytes? keyword.utf8ByteSize cs with
    | some rest => .ok (some (part, direction, rest))
    | none => .error .keyword

end Section

end LinearInterchange.Lp
