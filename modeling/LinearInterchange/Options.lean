import LinearInterchange.KeyMap
import LinearInterchange.Objective
import LinearInterchange.Text.Blank
import LinearInterchange.Text.IntegerText

/-! # Options

Readers and writers are configured by options, a map from keys to values. On a command line they
are written as `key=value` entries with semicolons between them. -/

namespace LinearInterchange

open Text

/-- Faults in a configuration. -/
inductive ConfigError where
  /-- A key that the component does not know. -/
  | unknownKey (component key : String)
  /-- A value that means nothing for its key. -/
  | invalidValue (key value reason : String)
  /-- An entry that is no `key=value`. -/
  | badEntry (entry : String)
  /-- A format that is not registered for the given role. -/
  | unknownFormat (role key : String)
  deriving DecidableEq

/-- The wording of a fault. -/
def ConfigError.message : ConfigError → String
  | .unknownKey component key => "unknown option `" ++ key ++ "` for " ++ component
  | .invalidValue key value reason =>
    "invalid value `" ++ value ++ "` for option `" ++ key ++ "`: " ++ reason
  | .badEntry entry => "invalid option syntax `" ++ entry ++ "`, expected `key=value`"
  | .unknownFormat role key => "unknown " ++ role ++ " format `" ++ key ++ "`"

/-- Option values by key. -/
abbrev Options := KeyMap String

namespace Options

/-- The key and the value of one entry, which is not blank. -/
def readEntry (entry : List Char) : Except ConfigError (String × String) :=
  match splitFirst (· == '=') entry with
  | none => .error (.badEntry (String.ofList entry))
  | some (key, value) =>
    if (trim key).isEmpty then .error (.badEntry (String.ofList entry))
    else .ok (String.ofList (trim key), String.ofList (trim value))

/-- Reads a list of entries with semicolons between them. Blank entries are skipped, white space
around entries, keys and values does not count, and a later entry overwrites an earlier one with
its key. -/
def read (spec : String) : Except ConfigError Options := do
  let entries := ((spec.toList.splitOn ';').map trim).filter fun e => !e.isEmpty
  return KeyMap.ofList (← entries.mapM readEntry)

/-- Refuses the first key, in the order of keys, that is not among the known ones. -/
def checkKeys (opts : Options) (component : String) (known : List String) :
    Except ConfigError Unit :=
  match opts.keys.find? (· ∉ known) with
  | some key => .error (.unknownKey component key)
  | none => .ok ()

/-- The value of an option, read by `read`; what cannot be read is an invalid value. -/
def getWith {α : Type} (read : String → Except String α) (opts : Options) (key : String) :
    Except ConfigError (Option α) :=
  match opts.get? key with
  | none => .ok none
  | some value =>
    match read value with
    | .ok a => .ok (some a)
    | .error reason => .error (.invalidValue key value reason)

/-- Reads a truth value: `true`, `yes` or `1`, and `false`, `no` or `0`, in any case. -/
def readBool (value : String) : Except String Bool :=
  let word := lower value.toList
  if word = "true".toList || word = "yes".toList || word = "1".toList then .ok true
  else if word = "false".toList || word = "no".toList || word = "0".toList then .ok false
  else .error "expected a boolean"

/-- A truth value among the options. -/
def getBool (opts : Options) (key : String) : Except ConfigError (Option Bool) :=
  getWith readBool opts key

/-- A 64-bit integer among the options. -/
def getWord (opts : Options) (key : String) : Except ConfigError (Option Int64) :=
  getWith (fun s => (readWord s.toList).mapError IntegerFault.message) opts key

/-- A 32-bit integer without sign among the options. -/
def getIndex (opts : Options) (key : String) : Except ConfigError (Option UInt32) :=
  getWith (fun s => (readIndex s.toList).mapError IntegerFault.message) opts key

/-- A direction among the options. -/
def getDirection (opts : Options) (key : String) : Except ConfigError (Option Direction) :=
  getWith (fun s => (Direction.read s).mapError Direction.Invalid.message) opts key

end Options

end LinearInterchange
