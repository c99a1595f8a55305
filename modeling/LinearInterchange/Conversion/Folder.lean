import LinearInterchange.Input.Position
import LinearInterchange.KeyMap

/-! # Folders

A folder holds the files and directories that a conversion reads from and writes to. Paths are
relative to it; their steps are separated by slashes. A path is walked name by name, and the first
name that leads nowhere decides what is reported. -/

namespace LinearInterchange

/-- Files with their bytes and directories, by their paths in normal form. -/
structure Folder where
  files : KeyMap (List UInt8) := .empty
  dirs : List String := []

namespace Folder

/-- What is found at a path, with the path in normal form. -/
inductive Entry where
  | file (path : List String) (bytes : List UInt8)
  | dir (path : List String)

/-- The text of a path in normal form. -/
def key (path : List String) : String :=
  "/".intercalate path

/-- The path ends with a slash, which only the path of a directory may do. -/
def isMarkedDir (path : String) : Bool :=
  path.toList.getLast? = some '/'

/-- A path holds the zero character, which no name may have. -/
def hasZero (path : String) : Bool :=
  path.toList.contains '\x00'

/-- A path is longer than paths may be: with the zero byte at its end, it takes over 4096 bytes. -/
def isLongPath (path : String) : Bool :=
  4096 ≤ path.utf8ByteSize

/-- A name on a path is longer than names may be, which is 255 bytes. -/
def isLongName (name : String) : Bool :=
  255 < name.utf8ByteSize

/-- A name on a path that is no name in a directory: it leads to a directory on the way. -/
def isWaypoint (name : String) : Bool :=
  name = "." || name = ".." || name = "/"

/-- The names on a path. A path that begins with a slash begins with a step of that name. -/
def names (path : String) : List String :=
  let inner := ((path.toList.splitOn '/').map String.ofList).filter (· ≠ "")
  if path.toList.head? = some '/' then "/" :: inner else inner

/-- The steps of a path. A slash at its end is a step that stays where it is. -/
def steps (path : String) : List String :=
  names path ++ if isMarkedDir path then ["."] else []

/-- The directory above one. There is none above the root; above the folder itself they have no
names of their own. -/
def parent (here : List String) : List String :=
  if here = ["/"] then here
  else if here.isEmpty || here.getLast? = some ".." then here ++ [".."]
  else here.dropLast

/-- The path in normal form after one more step. -/
def enter (here : List String) (step : String) : List String :=
  if step = "." then here
  else if step = ".." then parent here
  else here ++ [step]

/-- A path in normal form. -/
def normal (path : String) : List String :=
  (names path).foldl enter []

/-- There is a directory of the path in normal form. The root is one, and so are those above the
folder. -/
def hasDir (folder : Folder) (path : List String) : Bool :=
  path.getLast?.all (fun name => name = "/" || name = "..") || key path ∈ folder.dirs

/-- Walks from a directory along steps. -/
def walk (folder : Folder) (here : List String) : List String → Except SystemFault Entry
  | [] => .ok (.dir here)
  | step :: rest =>
    let next := enter here step
    if isWaypoint step || folder.hasDir next then walk folder next rest
    else if isLongName step then .error .nameTooLong
    else
      match folder.files.get? (key next) with
      | some bytes => if rest.isEmpty then .ok (.file next bytes) else .error .notADirectory
      | none => .error .notFound

/-- What is found at a path that is opened. -/
def find (folder : Folder) (path : String) : Except SystemFault Entry :=
  if hasZero path then .error .zeroInName
  else if isLongPath path then .error .nameTooLong
  else if path.isEmpty then .error .notFound
  else folder.walk [] (steps path)

/-- The path leads to a directory. -/
def isDir (folder : Folder) (path : String) : Bool :=
  match folder.find path with
  | .ok (.dir _) => true
  | _ => false

/-- The directory in which the last name of a path is looked up, and that name. -/
def locate (folder : Folder) (path : String) : Except SystemFault (List String × String) :=
  if isLongPath path then .error .nameTooLong
  else
    match (names path).reverse with
    | [] => .error .notFound
    | name :: above =>
      match folder.walk [] above.reverse with
      | .error e => .error e
      | .ok (.file _ _) => .error .notADirectory
      | .ok (.dir here) => .ok (here, name)

/-- Where a file can be opened for writing. The path of a directory is refused, whether or not
there is one. -/
def placeToOpen (folder : Folder) (path : String) : Except SystemFault (List String) :=
  if hasZero path then .error .zeroInName
  else
    match folder.locate path with
    | .error e => .error e
    | .ok (here, name) =>
      if isMarkedDir path || isWaypoint name then .error .isADirectory
      else if isLongName name then .error .nameTooLong
      else if folder.hasDir (enter here name) then .error .isADirectory
      else .ok (enter here name)

/-- Where a file that is complete can be moved to. It takes the place of another file, but not that
of a directory. -/
def placeToMove (folder : Folder) (path : String) : Except SystemFault (List String) :=
  if hasZero path then .error .invalidArgument
  else
    match folder.locate path with
    | .error e => .error e
    | .ok (here, name) =>
      if isWaypoint name then .error .busy
      else if isLongName name then .error .nameTooLong
      else if isMarkedDir path then .error .notADirectory
      else if folder.hasDir (enter here name) then .error .isADirectory
      else .ok (enter here name)

/-- The folder with a file under a name, in place of the one that was there. -/
def put (folder : Folder) (bytes : List UInt8) (path : List String) : Folder :=
  { folder with files := folder.files.insert (key path) bytes }

/-- Opens a file and writes it. -/
def write (folder : Folder) (path : String) (bytes : List UInt8) : Except SystemFault Folder :=
  (folder.placeToOpen path).map (folder.put bytes)

/-- Writes a file elsewhere and moves it to its path. -/
def commit (folder : Folder) (path : String) (bytes : List UInt8) : Except SystemFault Folder :=
  (folder.placeToMove path).map (folder.put bytes)

/-- Adds the directories that names lead through. -/
def addOnWay (folder : Folder) (names : List String) : Folder :=
  let visited := (List.range names.length).map fun n => (names.take (n + 1)).foldl enter []
  { folder with dirs := folder.dirs ++ visited.map key }

/-- Adds the directory at a path and those on the way to it. -/
def addDir (folder : Folder) (path : String) : Folder :=
  folder.addOnWay (names path)

/-- Adds a file at a path and the directories on the way to it. -/
def addFile (folder : Folder) (path : String) (bytes : List UInt8) : Folder :=
  (folder.addOnWay (names path).dropLast).put bytes (normal path)

/-- The files that lie in a directory itself, by name. -/
def filesIn (folder : Folder) (path : String) : List (String × List UInt8) :=
  folder.files.entries.filterMap fun (k, bytes) =>
    let path' := names k
    if path'.dropLast = normal path then path'.getLast?.map (·, bytes) else none

end Folder

end LinearInterchange
