import LinearInterchange.Conversion.Folder

/-! # Outlets

Encoded instances are committed to an outlet as complete texts. One kind puts all of them one after
another into a stream; the other kind puts each into its own file of a directory, named after the
instance. A file is there only once it is complete. A stream may fail, and what it has taken of a
text until then cannot be taken back. -/

namespace LinearInterchange

/-- The bytes of a text. -/
def bytesOf (s : String) : List UInt8 :=
  s.toUTF8.data.toList

/-- Where instances are committed to. -/
inductive Target where
  | stream
  /-- A directory, and the extension that files get for their compression. -/
  | directory (path : String) (compression : Option String)
  deriving DecidableEq

/-- A stream as its writer sees it. What it does may depend on all that it was offered before; by
default it takes everything. -/
structure Device where
  /-- The bytes are not all taken: so many of them are, and then the stream fails. -/
  write (offered : List (List UInt8)) (bytes : List UInt8) : Option (Nat × SystemFault) := none
  /-- What was taken is not passed on, and the stream fails. -/
  flush (offered : List (List UInt8)) : Option SystemFault := none

/-- A target with what was committed to it, and the number of instances that had no name for a
file of theirs. -/
structure Outlet where
  target : Target := .stream
  device : Device := {}
  /-- What the stream was offered, one text after another. -/
  offered : List (List UInt8) := []
  /-- What the stream has taken. -/
  received : List UInt8 := []
  unnamed : Nat := 0
  folder : Folder := {}

namespace Outlet

/-- The text that the stream has taken. -/
def stream (o : Outlet) : String :=
  (String.fromUTF8? o.received.toByteArray).getD ""

/-- The outlet after its stream was offered bytes and has taken a part of them. -/
def took (o : Outlet) (bytes part : List UInt8) : Outlet :=
  { o with offered := o.offered ++ [bytes], received := o.received ++ part }

/-- An outlet into a directory, which has to exist. -/
def intoDirectory (folder : Folder) (path : String) (compression : Option String) :
    Except SystemFault Outlet :=
  if folder.isDir path then .ok { target := .directory path compression, folder }
  else .error (.noOutputDirectory path)

/-- The name can be that of a file: it is not empty, is none of the names for directories on the
way, and holds no slash of either kind. -/
def isFileStem (name : String) : Bool :=
  name ≠ "" && name ≠ "." && name ≠ ".." && !name.toList.any fun c => c == '/' || c == '\\'

/-- The path of a file in a directory. -/
def join (dir file : String) : String :=
  if dir = "" || dir.toList.getLast? = some '/' then dir ++ file else dir ++ "/" ++ file

/-- The stem of the file of an instance, and the number of instances without name so far. -/
def stem (unnamed : Nat) (name : Option String) : String × Nat :=
  match name.filter isFileStem with
  | some name => (name, unnamed)
  | none => ("instance-" ++ toString (unnamed + 1), unnamed + 1)

/-- The name of a file, with the extension of its format and that of its compression. -/
def fileName (stem extension : String) (compression : Option String) : String :=
  stem ++ "." ++ extension ++ (compression.elim "" fun c => "." ++ c)

/-- Commits bytes to the file of an instance in a directory. Returns the path of the file. -/
def commitFile (o : Outlet) (dir : String) (compression : Option String) (name : Option String)
    (extension : String) (bytes : List UInt8) : Except SystemFault String × Outlet :=
  let (stem, unnamed) := stem o.unnamed name
  let path := join dir (fileName stem extension compression)
  let o := { o with unnamed }
  match o.folder.commit path bytes with
  | .ok folder => (.ok path, { o with folder })
  | .error e => (.error e, o)

/-- Commits bytes to the stream: they are written, and then the stream is flushed. -/
def commitStream (o : Outlet) (bytes : List UInt8) : Except SystemFault Unit × Outlet :=
  match o.device.write o.offered bytes with
  | some (taken, fault) => (.error fault, o.took bytes (bytes.take taken))
  | none =>
    match o.device.flush (o.offered ++ [bytes]) with
    | some fault => (.error fault, o.took bytes bytes)
    | none => (.ok (), o.took bytes bytes)

/-- Commits the text of an instance. Returns the path of its file if it has one. -/
def commit (o : Outlet) (name : Option String) (extension text : String) :
    Except SystemFault (Option String) × Outlet :=
  match o.target with
  | .stream =>
    let (outcome, o) := o.commitStream (bytesOf text)
    (outcome.map fun _ => none, o)
  | .directory dir compression =>
    let (outcome, o) := o.commitFile dir compression name extension (bytesOf text)
    (outcome.map some, o)

end Outlet

end LinearInterchange
