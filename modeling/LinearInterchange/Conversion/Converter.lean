import LinearInterchange.Conversion.Outlet
import LinearInterchange.Conversion.Registry
import LinearInterchange.Instance.Integral
import LinearInterchange.Instance.ThreeTerm

/-! # Converters

A converter takes the instances of a stream through its stages: it reads an instance, resolves its
direction, scales it to integers if it is asked to, splits its constraints unless it is asked not
to, and writes it. Any stage can fail, which ends the run; what was committed before stays. -/

namespace LinearInterchange

/-- What a converter is doing. -/
inductive Stage where
  /-- Nothing, or it has stopped at the requested number of instances. -/
  | idle
  | reading
  | resolving
  | normalizing
  | splitting
  | writing
  /-- The stream holds no further instance. -/
  | exhausted
  | failed
  deriving DecidableEq

/-- The word for a stage. -/
def Stage.toText : Stage → String
  | idle => "idle"
  | reading => "reading"
  | resolving => "resolving"
  | normalizing => "normalizing"
  | splitting => "splitting"
  | writing => "writing"
  | exhausted => "exhausted"
  | failed => "failed"

instance : ToString Stage := ⟨Stage.toText⟩

/-- Why a stage failed. -/
inductive StageError where
  | read (e : ReadError)
  | precision (e : PrecisionLoss)
  | split (e : SplitError)
  | write (e : WriteError)
  | output (fault : SystemFault)
  deriving DecidableEq

/-- The wording of a failed stage. -/
def StageError.message : StageError → String
  | .read e => e.message
  | .precision e => e.message
  | .split e => e.message
  | .write e => e.message
  | .output fault => "output error: " ++ fault.message

/-- A run that failed: the label of the instance, or of the stream if it could not be read, its
number within the run, the stage and the reason. -/
structure RunError where
  label : String
  index : Nat
  stage : Stage
  source : StageError
  deriving DecidableEq

/-- The wording of a failed run. -/
def RunError.message (e : RunError) : String :=
  e.label ++ " (instance " ++ toString e.index ++ ", " ++ toString e.stage ++ "): "
    ++ e.source.message

/-- The settings of the stages between reading and writing, and the number of instances after
which a run stops. -/
structure Settings where
  strategy : Strategy := {}
  noSplit : Bool := false
  normalizer : Option Normalizer := none
  count : Option { n : Nat // 0 < n } := none

/-- What a run did: the instances written, the auxiliary variables that splitting took, the paths
of the files written, and whether the stream was read to its end. -/
structure RunSummary where
  written : Nat := 0
  aux : Nat := 0
  outputs : List String := []
  exhausted : Bool := false
  deriving DecidableEq

/-- A reader and a writer with settings. -/
structure Converter where
  reader : Reader
  writer : OutputFormat
  settings : Settings
  stage : Stage := .idle

namespace Converter

/-- Scales an instance to integers if there is a normalizer. -/
def scale (settings : Settings) (inst : Instance) : Except (Stage × StageError) Instance :=
  match settings.normalizer with
  | none => .ok inst
  | some n =>
    match n.normalize inst with
    | (_, .error e) => .error (.normalizing, .precision e)
    | (inst, .ok _) => .ok inst

/-- Splits the constraints of an instance unless that is switched off. Returns the instance with the
number of auxiliary variables. -/
def split (settings : Settings) (inst : Instance) :
    Except (Stage × StageError) (Instance × Nat) :=
  if settings.noSplit then .ok (inst, 0)
  else
    match inst.splitConstrs with
    | (_, .error e) => .error (.splitting, .split e)
    | (inst, .ok stats) => .ok (inst, stats.aux)

/-- Takes an instance through the stages between reading and writing. Returns the instance with
the number of auxiliary variables, or the stage that failed with its reason. -/
def transform (settings : Settings) (inst : Instance) :
    Except (Stage × StageError) (Instance × Nat) := do
  let inst ← scale settings (settings.strategy.apply inst)
  split settings inst

/-- Writes an instance and commits its text. Returns the path of its file if it has one. -/
def store (writer : OutputFormat) (inst : Instance) (out : Outlet) :
    Except StageError (Option String) × Outlet :=
  match (writer.encode inst).output with
  | (.error e, _) => (.error (.write e), out)
  | (.ok (), text) =>
    let (outcome, out) := out.commit inst.name writer.extension text
    (outcome.mapError .output, out)

/-- Takes one decoded instance through all stages. Returns the number of its auxiliary variables
and the path of its file, or the stage that failed with its reason. -/
def process (c : Converter) (inst : Instance) (out : Outlet) :
    Except (Stage × StageError) (Nat × Option String) × Outlet :=
  match transform c.settings inst with
  | .error e => (.error e, out)
  | .ok (inst, aux) =>
    let (outcome, out) := store c.writer inst out
    ((outcome.mapError fun e => (Stage.writing, e)).map fun path => (aux, path), out)

/-- The label of an instance in messages: its name, or its number in a stream that can hold
several, or the name of the stream. -/
def label (c : Converter) (source : String) (index : Nat) (inst : Instance) : String :=
  match inst.name with
  | some name => name
  | none =>
    if c.reader.format.isMulti then "<stream instance #" ++ toString index ++ ">" else source

/-- What a run leaves behind. -/
structure Run where
  outcome : Except RunError RunSummary
  converter : Converter
  input : InputStream
  out : Outlet

/-- The requested number of instances is reached. -/
def isReached (settings : Settings) (written : Nat) : Bool :=
  settings.count.any fun n => n.val ≤ written

/-- Goes on with a run that did `summary` so far. The run ends with the stream, which gets shorter
with every instance of a format that holds several. -/
def runFrom (source : String) (summary : RunSummary) (c : Converter) (input : InputStream)
    (out : Outlet) : Run :=
  let index := summary.written + 1
  match hnext : c.reader.next input with
  | (.error e, reader, input') =>
    ⟨.error ⟨source, index, .reading, .read e⟩, { c with reader, stage := .failed }, input', out⟩
  | (.ok none, reader, input') =>
    ⟨.ok { summary with exhausted := true }, { c with reader, stage := .exhausted }, input', out⟩
  | (.ok (some inst), reader, input') =>
    let label := c.label source index inst
    let c := { c with reader }
    match c.process inst out with
    | (.error (stage, e), out) =>
      ⟨.error ⟨label, index, stage, e⟩, { c with stage := .failed }, input', out⟩
    | (.ok (aux, path), out) =>
      let summary := { summary with
        written := summary.written + 1
        aux := summary.aux + aux
        outputs := summary.outputs ++ path.toList }
      if _hend : !reader.format.isMulti || reader.cursor.atEnd then
        ⟨.ok { summary with exhausted := true }, { c with stage := .exhausted }, input', out⟩
      else if isReached c.settings summary.written then
        ⟨.ok summary, { c with stage := .idle }, input', out⟩
      else runFrom source summary c input' out
termination_by input.source.rest.length
decreasing_by
  have hmulti : reader.format.isMulti = true := by simp_all
  exact Reader.length_rest_next hnext hmulti

/-- Converts the instances of a stream, up to its end or to the requested number. The name of the
stream stands in messages. -/
def run (c : Converter) (input : InputStream) (source : String) (out : Outlet) : Run :=
  c.runFrom source {} input out

end Converter

/-- What to convert from and to: formats by their keys, options and settings. -/
structure Job where
  reader : String
  readerOpts : Options := .empty
  writer : String
  writerOpts : Options := .empty
  settings : Settings := {}

/-- The converter for a job. A strategy among the options of the reader takes precedence over the
one among the settings. -/
def Registry.converter (r : Registry) (job : Job) : Except ConfigError Converter := do
  let reader ← r.reader job.reader job.readerOpts
  let writer ← r.writer job.writer job.writerOpts
  let strategy ← Strategy.ofOptions job.readerOpts
  let settings := { job.settings with strategy := strategy.orElse job.settings.strategy }
  return { reader, writer, settings }

end LinearInterchange
