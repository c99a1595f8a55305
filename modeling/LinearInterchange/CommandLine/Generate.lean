import LinearInterchange.CommandLine.Outcome
import LinearInterchange.Conversion.Outlet
import LinearInterchange.Format.Knapsack.Generator
import LinearInterchange.Text.IntegerText

/-! # The generator program

Generates a stream of knapsacks, into the standard output or into a file. -/

namespace LinearInterchange.CommandLine.Generate

open Text

/-- What the command line of the generator says. -/
structure Settings where
  /-- The file for the stream; without one, it goes to the standard output. -/
  path : Option String := none
  count : Nat := 5
  items : Nat := 20
  leastWeight : Int64 := 1
  greatestWeight : Int64 := 40
  leastProfit : Int64 := 1
  greatestProfit : Int64 := 40
  divisor : Int64 := 2
  divisor_pos : 0 < divisor := by decide
  stem : String := "knap"
  seed : Nat := 42

/-- Reads a count or a seed. -/
def readSize (value : String) : Option Nat :=
  (readNatural value.toList).toOption

/-- Reads a 64-bit word. -/
def readBound (value : String) : Option Int64 :=
  (readWord value.toList).toOption

/-- The settings with the divisor that makes capacities of total weights, if it is positive. -/
def Settings.withDivisor (s : Settings) (divisor : Int64) : Option Settings :=
  if h : 0 < divisor then some { s with divisor, divisor_pos := h } else none

/-- The switches of the generator. -/
def switches : List (Switch Settings) :=
  [⟨"n-instances", none, .value fun v s => (readSize v).map fun count => { s with count }⟩,
    ⟨"n-items", none, .value fun v s => (readSize v).map fun items => { s with items }⟩,
    ⟨"min-weight", none, .value fun v s =>
      (readBound v).map fun leastWeight => { s with leastWeight }⟩,
    ⟨"max-weight", none, .value fun v s =>
      (readBound v).map fun greatestWeight => { s with greatestWeight }⟩,
    ⟨"min-profit", none, .value fun v s =>
      (readBound v).map fun leastProfit => { s with leastProfit }⟩,
    ⟨"max-profit", none, .value fun v s =>
      (readBound v).map fun greatestProfit => { s with greatestProfit }⟩,
    ⟨"cap-fraction", none, .value fun v s => (readBound v).bind s.withDivisor⟩,
    ⟨"prefix", none, .value fun v s => some { s with stem := v }⟩,
    ⟨"seed", none, .value fun v s => (readSize v).map fun seed => { s with seed }⟩]
  ++ standardSwitches Settings

/-- The command line of the generator: at most one operand, which is not empty, is the file for the
stream. -/
def grammar : Grammar Settings where
  switches := switches
  operand word s :=
    if s.path.isSome || word.isEmpty then none else some { s with path := some word }

namespace Settings

/-- The generator with the given settings. -/
def generator (s : Settings) : Knapsack.Generator where
  items := s.items
  profit := ⟨s.leastProfit, s.greatestProfit⟩
  weight := ⟨s.leastWeight, s.greatestWeight⟩
  capacity := .fraction s.divisor
  stem := s.stem

/-- A range holds no word. -/
def hasEmptyRange (s : Settings) : Bool :=
  s.greatestWeight < s.leastWeight || s.greatestProfit < s.leastProfit

/-- The divisor is positive, so there is a capacity for every knapsack. -/
theorem isSome_generate (s : Settings) : (s.generator.generate s.count s.seed).isSome := by
  refine Knapsack.Generator.isSome_generateFrom .standard (fun d h => ?_) 1 s.count
    (mkStdGen s.seed)
  exact Knapsack.CapacityRule.fraction.inj h ▸ s.divisor_pos

/-- The stream of knapsacks. -/
def text (s : Settings) : String :=
  String.join (((s.generator.generate s.count s.seed).get s.isSome_generate).map Knapsack.render)

end Settings

/-- Runs the generator. -/
def run (words : List String) (folder : Folder) : Outcome :=
  match grammar.read {} words with
  | .error halt => halt.outcome switches folder
  | .ok settings =>
    if settings.hasEmptyRange then
      { report := some (.failure "empty weight or profit range" none), folder }
    else
      match settings.path with
      | none => { output := settings.text, folder }
      | some path =>
        match folder.write path (bytesOf settings.text) with
        | .error fault =>
          { report := some (.failure ("cannot create " ++ path) (some fault.message)), folder }
        | .ok folder => { folder }

/-- The paths that the generator looks at. -/
def paths (words : List String) : List String :=
  match grammar.read {} words with
  | .error _ => []
  | .ok settings => settings.path.toList

end LinearInterchange.CommandLine.Generate
