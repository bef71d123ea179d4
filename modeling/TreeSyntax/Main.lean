import TreeSyntax.CommandLine.Check

/-!
# The program

The outermost layer: it reads the folder that the program starts in, runs the command line on what
it read, and then prints and writes what the run left behind.
-/

namespace TreeSyntax

/-- The files below some folder entries, and the folders, which have no content.  Links are not
followed. -/
partial def readEntries (above : String) (entries : Array IO.FS.DirEntry) :
    IO (Entries (Option ByteArray)) := do
  let mut contents := []
  for entry in entries do
    let path := above ++ entry.fileName
    match (← entry.path.symlinkMetadata).type with
    | .dir =>
        contents := contents ++ [(path, none)]
        contents := contents ++ (← readEntries (path ++ "/") (← entry.path.readDir))
    | .file => contents := contents ++ [(path, some (← IO.FS.readBinFile entry.path))]
    | _ => pure ()
  return contents

def readWorkingFolder : IO FileTree := do
  let entries ← (← IO.currentDir).readDir
  return .ofContents (← readEntries "" entries)

def readColourSettings : IO Text.ColourSettings := do
  let forced ← IO.getEnv "CLICOLOR_FORCE"
  let refused ← IO.getEnv "NO_COLOR"
  let wanted ← IO.getEnv "CLICOLOR"
  return ⟨forced, refused, wanted, ← (← IO.getStdout).isTty⟩

def writeNode (place : Place) : FileNode → IO Unit
  | .folder => IO.FS.createDirAll (FileTree.placeText place)
  | .file content => IO.FS.writeBinFile (FileTree.placeText place) content

def perform (program : FileTree → Bool → List String → CommandLine.Run)
    (arguments : List String) : IO UInt32 := do
  let files ← readWorkingFolder
  let settings ← readColourSettings
  let run := program files settings.coloured arguments
  for entry in FileTree.changedNodes files run.files do
    writeNode entry.1 entry.2
  IO.print run.output
  IO.eprint run.errors
  return run.exitCode.toUInt32

end TreeSyntax

def main (arguments : List String) : IO UInt32 :=
  TreeSyntax.perform TreeSyntax.CommandLine.run arguments
