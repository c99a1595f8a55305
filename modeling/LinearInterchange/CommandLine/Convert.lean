import LinearInterchange.CommandLine.Outcome
import LinearInterchange.Conversion.Batch

/-! # The converter program

Converts inputs between formats, into the standard output or into files of a directory. A fault in
the configuration is reported before any input is read; inputs that fail are counted. -/

namespace LinearInterchange.CommandLine.Convert

open Text

/-- What the command line of the converter says. -/
structure Settings where
  /-- The operands; without one, the standard input is converted. -/
  operands : List String := []
  reader : Option String := none
  writer : Option String := none
  readerOpts : String := ""
  writerOpts : String := ""
  /-- The words for directions that are entered among the options of the reader. -/
  override : Option String := none
  fallback : Option String := none
  isScaling : Bool := false
  normalizer : Normalizer := {}
  count : Option { n : Nat // 0 < n } := none
  noSplit : Bool := false
  /-- The directory for outputs, or a dash for the standard output. -/
  outDir : String := "-"
  compression : Option String := none
  verbosity : Nat := 0

/-- Reads a count, which is positive. -/
def readCount (value : String) : Option { n : Nat // 0 < n } :=
  (readNatural value.toList).toOption.bind fun n => if h : 0 < n then some ⟨n, h⟩ else none

/-- Reads the largest factor for scaling, which is positive. -/
def readNormalizer (value : String) : Option Normalizer :=
  (readWord value.toList).toOption.bind Normalizer.ofMax?

/-- The switches of the converter. -/
def switches : List (Switch Settings) :=
  [⟨"reader", some 'r', .value fun v s => some { s with reader := some v }⟩,
    ⟨"writer", some 'w', .value fun v s => some { s with writer := some v }⟩,
    ⟨"convert-float", some 'f', .flag fun s => { s with isScaling := true }⟩,
    ⟨"max-scale", none, .value fun v s =>
      (readNormalizer v).map fun normalizer => { s with normalizer }⟩,
    ⟨"out-dir", some 'o', .value fun v s => some { s with outDir := v }⟩,
    ⟨"compress", none, .value fun v s => some { s with compression := some v }⟩,
    ⟨"num-instances", some 'n', .value fun v s =>
      (readCount v).map fun count => { s with count := some count }⟩,
    ⟨"opt-strategy", some 's', .value fun v s => some { s with override := some v }⟩,
    ⟨"default-opt-strategy", some 'd', .value fun v s => some { s with fallback := some v }⟩,
    ⟨"no-split", some 'p', .flag fun s => { s with noSplit := true }⟩,
    ⟨"reader-opts", some 'e', .value fun v s => some { s with readerOpts := v }⟩,
    ⟨"writer-opts", some 'i', .value fun v s => some { s with writerOpts := v }⟩,
    ⟨"verbose", some 'v', .counter fun s => { s with verbosity := s.verbosity + 1 }⟩]
  ++ standardSwitches Settings

/-- The command line of the converter: any number of operands are its inputs. -/
def grammar : Grammar Settings where
  switches := switches
  operand word s := some { s with operands := s.operands ++ [word] }

namespace Settings

/-- The inputs to convert. -/
def inputs (s : Settings) : List Input :=
  (if s.operands.isEmpty then ["-"] else s.operands).map Input.ofArgument

/-- The value of a switch that has to be given. -/
def required (name : String) (value : Option String) : Except Report String :=
  value.elim (.error (.usage (.missingSwitch name))) .ok

/-- Enters the words for directions among the options of the reader. -/
def withDirections (s : Settings) (opts : Options) : Options :=
  let opts := s.override.elim opts (opts.insert "opt_strategy")
  s.fallback.elim opts (opts.insert "default_opt_strategy")

/-- The job that the settings describe. -/
def job (s : Settings) : Except Report Job := do
  let reader ← required "reader" s.reader
  let writer ← required "writer" s.writer
  let readerOpts ←
    Report.context "failed to parse reader options" ConfigError.message (Options.read s.readerOpts)
  let writerOpts ←
    Report.context "failed to parse writer options" ConfigError.message (Options.read s.writerOpts)
  return {
    reader, writer, writerOpts
    readerOpts := s.withDirections readerOpts
    settings := {
      noSplit := s.noSplit
      normalizer := if s.isScaling then some s.normalizer else none
      count := s.count } }

/-- The outlet for the outputs. -/
def outlet (s : Settings) (folder : Folder) : Except Report Outlet :=
  if s.outDir = "-" then .ok { folder }
  else
    Report.context ("cannot write to " ++ s.outDir) SystemFault.message
      (Outlet.intoDirectory folder s.outDir s.compression)

/-- The job and the outlet, after the configuration was found to be without faults. -/
def prepare (s : Settings) (folder : Folder) : Except Report (Job × Outlet) := do
  let job ← s.job
  let _ ← Report.context "invalid conversion configuration" ConfigError.message
    (Registry.standard.converter job)
  return (job, ← s.outlet folder)

end Settings

/-- The report on a batch: how many of its inputs failed, if any did. -/
def batchReport (summary : Batch.Summary) : Option Report :=
  if summary.failed = 0 then none
  else some (.failure
    (toString summary.failed ++ " of " ++ toString summary.length ++ " inputs failed") none)

/-- Runs the converter. -/
def run (words : List String) (folder : Folder) (standard : List UInt8) : Outcome :=
  match grammar.read {} words with
  | .error halt => halt.outcome switches folder
  | .ok settings =>
    match settings.prepare folder with
    | .error report => { report := some report, folder }
    | .ok (job, out) =>
      let (summary, s) := Batch.convertAll .standard job settings.inputs { out, standard }
      { report := batchReport summary, output := s.out.stream, folder := s.out.folder }

/-- The paths that the converter looks at. -/
def paths (words : List String) : List String :=
  match grammar.read {} words with
  | .error _ => []
  | .ok settings => settings.outDir :: settings.operands

/-- The converter reads its standard input. -/
def readsStandard (words : List String) : Bool :=
  match grammar.read {} words with
  | .error _ => false
  | .ok settings => settings.inputs.contains .standard

end LinearInterchange.CommandLine.Convert
