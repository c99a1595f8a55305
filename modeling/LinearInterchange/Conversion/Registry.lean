import LinearInterchange.Conversion.Reader
import LinearInterchange.Conversion.Writer
import LinearInterchange.Text.Quoted

/-! # The registry of formats

Formats are known by keys. A format that is registered under a known key replaces the old one. -/

namespace LinearInterchange

/-- The formats that can be read and those that can be written, by key. -/
structure Registry where
  readers : KeyMap ReaderKind := .empty
  writers : KeyMap WriterKind := .empty

namespace Registry

/-- The registry without formats. -/
def empty : Registry := {}

/-- The registry of all formats of the library. -/
def standard : Registry where
  readers := .ofList [("mps", .mps), ("lp", .lp), ("pisinger", .knapsack), ("fznimf", .flatZinc),
    ("inc", .exchange)]
  writers := .ofList [("sugar", .sugar), ("aspartame", .facts), ("casp", .clingcon),
    ("inc", .exchange)]

/-- Registers a format for reading. -/
def addReader (r : Registry) (key : String) (kind : ReaderKind) : Registry :=
  { r with readers := r.readers.insert key kind }

/-- Registers a format for writing. -/
def addWriter (r : Registry) (key : String) (kind : WriterKind) : Registry :=
  { r with writers := r.writers.insert key kind }

/-- A reader of the format with a given key. -/
def reader (r : Registry) (key : String) (opts : Options) : Except ConfigError Reader :=
  match r.readers.get? key with
  | none => .error (.unknownFormat "reader" key)
  | some kind => (kind.configure opts).map fun format => { format }

/-- A writer of the format with a given key. -/
def writer (r : Registry) (key : String) (opts : Options) : Except ConfigError OutputFormat :=
  match r.writers.get? key with
  | none => .error (.unknownFormat "writer" key)
  | some kind => kind.configure opts

/-- The text of a registry: the keys of its formats. -/
def toText (r : Registry) : String :=
  let list (keys : List String) := "[" ++ ", ".intercalate (keys.map Text.quoted) ++ "]"
  "Registry \x7b readers: " ++ list r.readers.keys
    ++ ", writers: " ++ list r.writers.keys ++ " \x7d"

end Registry

end LinearInterchange
