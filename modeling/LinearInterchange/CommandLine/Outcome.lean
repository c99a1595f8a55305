import LinearInterchange.CommandLine.Switch
import LinearInterchange.Conversion.Folder

/-! # Outcomes of programs

A program is a function: from its words, the folder it works in and its standard input to an exit
code, a text on its standard output, a report of what went wrong, and the folder it leaves. -/

namespace LinearInterchange.CommandLine

/-- What went wrong. -/
inductive Report where
  | usage (fault : UsageFault)
  /-- The work failed, perhaps for a cause of its own. -/
  | failure (message : String) (cause : Option String)
  deriving DecidableEq

namespace Report

/-- A text with its lines indented. -/
def indent (s : String) : String :=
  "    " ++ "\n    ".intercalate ((s.toList.splitOn '\n').map String.ofList)

/-- The text of a report. -/
def toText : Report → String
  | usage fault => "error: " ++ fault.message
  | failure message none => "Error: " ++ message
  | failure message (some cause) => "Error: " ++ message ++ "\n\nCaused by:\n" ++ indent cause

/-- The exit code that goes with a report. -/
def code : Report → UInt32
  | usage _ => 2
  | failure _ _ => 1

/-- Says what could not be done, with the reason. -/
def context {ε α : Type} (message : String) (cause : ε → String) (x : Except ε α) :
    Except Report α :=
  x.mapError fun e => .failure message (some (cause e))

end Report

/-- What a program leaves behind. -/
structure Outcome where
  report : Option Report := none
  output : String := ""
  folder : Folder

namespace Outcome

/-- The exit code of a program: zero unless something went wrong. -/
def code (o : Outcome) : UInt32 :=
  o.report.elim 0 Report.code

end Outcome

/-- The version of the programs. -/
def version : String := "ilpconv-tools 0.3.0"

/-- The outcome of a program that does not go to work. -/
def Halt.outcome {σ : Type} (switches : List (Switch σ)) (folder : Folder) : Halt → Outcome
  | usage fault => { report := some (.usage fault), folder }
  | help => { output := String.join ((Switch.usage switches).map (· ++ "\n")), folder }
  | version => { output := CommandLine.version ++ "\n", folder }

end LinearInterchange.CommandLine
