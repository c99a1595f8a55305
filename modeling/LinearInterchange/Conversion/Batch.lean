import LinearInterchange.Conversion.Converter

/-! # Batches

A batch converts several inputs one after another. Each one gets a converter of its own; one that
fails does not stop the others. -/

namespace LinearInterchange

/-- What to convert. -/
inductive Input where
  /-- The standard input. -/
  | standard
  | file (path : String)
  deriving DecidableEq

namespace Input

/-- The input that an argument names; a dash stands for the standard input. -/
def ofArgument (arg : String) : Input :=
  if arg = "-" then standard else file arg

/-- The name of an input in messages. -/
def toText : Input → String
  | standard => "<stdin>"
  | file path => path

instance : ToString Input := ⟨toText⟩

end Input

/-- Why an input was not converted. -/
inductive ConvertError where
  | config (e : ConfigError)
  /-- The input cannot be opened. -/
  | closed (input : Input) (fault : SystemFault)
  | run (e : RunError)
  deriving DecidableEq

/-- The wording of a failed conversion. -/
def ConvertError.message : ConvertError → String
  | .config e => e.message
  | .closed input fault => "cannot open " ++ toString input ++ ": " ++ fault.message
  | .run e => e.message

/-- The outlet of a batch, and what is left of the standard input. -/
structure Surroundings where
  out : Outlet := {}
  standard : List UInt8 := []

/-- The number of bytes that are fetched at a time. -/
def bufferSize : Nat := 8192

namespace Batch

/-- Converts one input of a batch. A directory can be opened, but reading from it fails. -/
def convertInput (registry : Registry) (job : Job) (input : Input) (s : Surroundings) :
    Except ConvertError RunSummary × Surroundings :=
  match registry.converter job with
  | .error e => (.error (.config e), s)
  | .ok converter =>
    match input with
    | .standard =>
      let run := converter.run (.ofBytes s.standard false bufferSize) (toString input) s.out
      (run.outcome.mapError .run, ⟨run.out, run.input.source.rest⟩)
    | .file path =>
      match s.out.folder.find path with
      | .error fault => (.error (.closed input fault), s)
      | .ok (.dir _) =>
        (.error (.run ⟨path, 1, .reading, .read (.system .isADirectory)⟩), s)
      | .ok (.file _ bytes) =>
        let run := converter.run (.ofBytes bytes true bufferSize) path s.out
        (run.outcome.mapError .run, { s with out := run.out })

/-- The inputs of a batch with the outcomes of their conversions, in order. -/
abbrev Summary := List (Input × Except ConvertError RunSummary)

/-- Converts inputs one after another. -/
def convertAll (registry : Registry) (job : Job) :
    List Input → Surroundings → Summary × Surroundings
  | [], s => ([], s)
  | input :: inputs, s =>
    let (outcome, s) := convertInput registry job input s
    let (rest, s) := convertAll registry job inputs s
    ((input, outcome) :: rest, s)

namespace Summary

/-- The number of inputs that failed. -/
def failed (s : Summary) : Nat :=
  s.countP fun (_, outcome) => outcome matches .error _

/-- The number of instances written, over the inputs that did not fail. -/
def written (s : Summary) : Nat :=
  s.foldl (fun total (_, outcome) =>
    match outcome with
    | .ok summary => total + summary.written
    | .error _ => total) 0

end Summary

end Batch

end LinearInterchange
