import LinearInterchange.Text.Blank

/-! # Switches

The words of a command line are switches, values of switches and operands. A long switch starts
with two dashes and takes its value from the same word, after an equals sign, or from the next
word. Short switches are single letters after one dash; several of them may share a word, and the
first one that takes a value takes the rest of it. After a word of two dashes all words are
operands. A single dash is an operand or a value. -/

namespace LinearInterchange.CommandLine

open Text

/-- What a switch does to the settings of a program. -/
inductive Action (σ : Type) where
  /-- It takes no value and can be given once. -/
  | flag (set : σ → σ)
  /-- It takes no value and can be given any number of times. -/
  | counter (step : σ → σ)
  /-- It takes a value, which it may refuse, and can be given once. -/
  | value (set : String → σ → Option σ)
  /-- It asks for the usage of the program. -/
  | help
  /-- It asks for the version of the program. -/
  | version

/-- A switch with its name and perhaps a letter for it. -/
structure Switch (σ : Type) where
  long : String
  short : Option Char := none
  action : Action σ

/-- The switch takes a value. -/
def Switch.takesValue {σ : Type} (s : Switch σ) : Bool :=
  s.action matches .value _

/-- The words that a program understands. -/
structure Grammar (σ : Type) where
  switches : List (Switch σ)
  /-- Takes an operand, unless it is one too many or cannot be one. -/
  operand : String → σ → Option σ

/-- What is wrong with the words of a command line. -/
inductive UsageFault where
  | unknownSwitch (word : String)
  | missingValue (name : String)
  | needlessValue (name value : String)
  | repeatedSwitch (name : String)
  | refusedValue (name value : String)
  | refusedOperand (word : String)
  | missingSwitch (name : String)
  deriving DecidableEq

/-- The wording of a fault. -/
def UsageFault.message : UsageFault → String
  | .unknownSwitch word => "unexpected argument " ++ word
  | .missingValue name => "a value is required for --" ++ name
  | .needlessValue name value => "unexpected value " ++ value ++ " for --" ++ name
  | .repeatedSwitch name => "--" ++ name ++ " cannot be used multiple times"
  | .refusedValue name value => "invalid value " ++ value ++ " for --" ++ name
  | .refusedOperand word => "unexpected argument " ++ word
  | .missingSwitch name => "--" ++ name ++ " is required"

/-- Why a program does not go to work. -/
inductive Halt where
  | usage (fault : UsageFault)
  | help
  | version
  deriving DecidableEq

/-- What has been understood of a command line. -/
structure Progress (σ : Type) where
  settings : σ
  /-- The names of the switches that cannot be given again. -/
  given : List String := []
  /-- The switch whose value is the next word. -/
  waiting : Option (Switch σ) := none
  /-- All further words are operands. -/
  operandsOnly : Bool := false

namespace Progress

variable {σ : Type}

/-- Performs a switch that can be given once. Its settings are missing if it refuses its value. -/
def once (p : Progress σ) (s : Switch σ) (value : String) (settings : Option σ) :
    Except Halt (Progress σ) :=
  if s.long ∈ p.given then .error (.usage (.repeatedSwitch s.long))
  else
    match settings with
    | none => .error (.usage (.refusedValue s.long value))
    | some settings => .ok { p with settings, given := s.long :: p.given }

/-- Performs a switch, given the value that came with it. -/
def perform (p : Progress σ) (s : Switch σ) (value : Option String) : Except Halt (Progress σ) :=
  match s.action, value with
  | .flag set, none => p.once s "" (some (set p.settings))
  | .counter step, none => .ok { p with settings := step p.settings }
  | .value set, some v => p.once s v (set v p.settings)
  | .value _, none => .ok { p with waiting := some s }
  | .help, none => .error .help
  | .version, none => .error .version
  | _, some v => .error (.usage (.needlessValue s.long v))

end Progress

namespace Grammar

variable {σ : Type}

/-- Takes the letters of short switches. -/
def takeLetters (g : Grammar σ) (p : Progress σ) : List Char → Except Halt (Progress σ)
  | [] => .ok p
  | c :: cs =>
    match g.switches.find? fun s => s.short = some c with
    | none => .error (.usage (.unknownSwitch (String.ofList ['-', c])))
    | some s =>
      if s.takesValue then
        match cs with
        | [] => p.perform s none
        | '=' :: value => p.perform s (some (String.ofList value))
        | value => p.perform s (some (String.ofList value))
      else
        match p.perform s none with
        | .error e => .error e
        | .ok p => takeLetters g p cs

/-- Takes a long switch, which is given without its dashes. -/
def takeLong (g : Grammar σ) (p : Progress σ) (body : List Char) : Except Halt (Progress σ) :=
  let (name, value) :=
    match splitFirst (· == '=') body with
    | some (name, value) => (name, some (String.ofList value))
    | none => (body, none)
  match g.switches.find? fun s => s.long.toList = name with
  | none => .error (.usage (.unknownSwitch (String.ofList ('-' :: '-' :: body))))
  | some s => p.perform s value

/-- Takes an operand. -/
def takeOperand (g : Grammar σ) (p : Progress σ) (word : String) : Except Halt (Progress σ) :=
  match g.operand word p.settings with
  | none => .error (.usage (.refusedOperand word))
  | some settings => .ok { p with settings }

/-- Takes a word that is not an operand by its place: an operand, the value that a switch waits
for, or switches. -/
def takeMarked (g : Grammar σ) (p : Progress σ) (word : String) : Except Halt (Progress σ) :=
  match word.toList, p.waiting with
  | '-' :: _ :: _, some s => .error (.usage (.missingValue s.long))
  | ['-', '-'], none => .ok { p with operandsOnly := true }
  | '-' :: '-' :: body, none => g.takeLong p body
  | '-' :: c :: cs, none => g.takeLetters p (c :: cs)
  | _, some s => { p with waiting := none }.perform s (some word)
  | _, none => g.takeOperand p word

/-- Takes the next word of a command line. -/
def take (g : Grammar σ) (p : Progress σ) (word : String) : Except Halt (Progress σ) :=
  if p.operandsOnly then g.takeOperand p word else g.takeMarked p word

/-- The settings that a command line makes. -/
def read (g : Grammar σ) (start : σ) (words : List String) : Except Halt σ :=
  match words.foldlM g.take { settings := start } with
  | .error e => .error e
  | .ok p =>
    match p.waiting with
    | some s => .error (.usage (.missingValue s.long))
    | none => .ok p.settings

end Grammar

/-- The switches that every program has. -/
def standardSwitches (σ : Type) : List (Switch σ) :=
  [⟨"help", some 'h', .help⟩, ⟨"version", some 'V', .version⟩]

/-- The lines of a usage text for a list of switches. -/
def Switch.usage {σ : Type} (switches : List (Switch σ)) : List String :=
  switches.map fun s =>
    let letter := s.short.elim "    " fun c => String.ofList ['-', c, ',', ' ']
    "  " ++ letter ++ "--" ++ s.long ++ if s.takesValue then " <VALUE>" else ""

end LinearInterchange.CommandLine
