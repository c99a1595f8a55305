import LinearInterchange.CommandLine.Convert
import LinearInterchange.CommandLine.Generate

/-! # The command line

Runs one of the two programs: the generator if the first word names it, the converter otherwise.
What a program looks at is read from the disk before it runs, and the files that it leaves in
another state are written after it ran. -/

namespace LinearInterchange.CommandLine

/-- Adds the directory or the file that the disk holds at a path, if there is one. Within a
directory only the directories matter, because they keep files from getting their names. -/
def loadEntry (folder : Folder) (path : String) : IO Folder := do
  match ← (IO.FS.realPath path).toBaseIO with
  | .error _ => return folder
  | .ok place =>
    if ← place.isDir then
      (← place.readDir).foldlM (fun folder entry => do
        if ← entry.path.isDir then return folder.addDir (Outlet.join path entry.fileName)
        else return folder) (folder.addDir path)
    else return folder.addFile path (← IO.FS.readBinFile path).data.toList

/-- Adds what the disk holds on the way to a path. -/
def load (folder : Folder) (path : String) : IO Folder :=
  let names := Folder.names path
  (List.range names.length).foldlM
    (fun folder n => loadEntry folder (Folder.key (names.take (n + 1)))) folder

/-- Writes the files that differ from what they were. -/
def save (before after : Folder) : IO Unit :=
  after.files.entries.forM fun (path, bytes) =>
    if before.files.get? path = some bytes then pure ()
    else IO.FS.writeBinFile path bytes.toByteArray

/-- Runs a program on the disk. -/
def perform (paths : List String) (run : Folder → Outcome) : IO UInt32 := do
  let before ← paths.foldlM load {}
  let outcome := run before
  save before outcome.folder
  (← IO.getStdout).putStr outcome.output
  if let some report := outcome.report then
    (← IO.getStderr).putStrLn report.toText
  return outcome.code

end LinearInterchange.CommandLine

open LinearInterchange CommandLine

/-- Runs the program that the words name. -/
def main (words : List String) : IO UInt32 := do
  match words with
  | "gen-knapsack" :: words => perform (Generate.paths words) (Generate.run words)
  | words =>
    let standard ←
      if Convert.readsStandard words then (← IO.getStdin).readBinToEnd else pure .empty
    perform (Convert.paths words) fun folder => Convert.run words folder standard.data.toList
