import ModuleRules.CommandLine.Run

/-!
# The program

Standard input lists the files that the run may see, one path a line; they are
read before the run, and what the run changed is written after it.
-/

namespace ModuleRules.Main

partial def readLines (input : IO.FS.Stream) (done : List Text) : IO (List Text) := do
  let line ← input.getLine
  if line.isEmpty then return done.reverse
  readLines input ((Text.lines line.toList).headD [] :: done)

def readTree : IO FileTree := do
  let here := (toString (← IO.currentDir)).toList
  let empty : FileTree := FileTree.addDirectory here ⟨[], (Path.pieces here).filter (· ≠ [])⟩
  let paths ← readLines (← IO.getStdin) []
  paths.foldlM (fun t path => do
    let content ← IO.FS.readBinFile (String.ofList path)
    return t.addFile path content.toList) empty

def pathOf (l : Location) : String := String.ofList ('/' :: Text.join ['/'] l)

/-- Writes the entries that a run changed, the directories first. -/
def writeChanges (before after : FileTree) : IO Unit := do
  let changed := after.entries.filter fun (l, e) => before.entry? l ≠ some e
  for (l, e) in changed do
    if e = .directory then IO.FS.createDirAll (pathOf l)
  for (l, e) in changed do
    if let .file content := e then IO.FS.writeBinFile (pathOf l) ⟨content.toArray⟩

def wantsColor : IO Bool := do
  return (← IO.getEnv "CLICOLOR_FORCE").any (· ≠ "0")

def run (args : List Text) : IO UInt32 := do
  let before ← if (CommandLine.Task.parse args).isOk then readTree else pure {}
  let ending := CommandLine.run (← wantsColor) args before
  IO.print (String.ofList ending.output.out)
  IO.eprint (String.ofList ending.output.err)
  writeChanges before ending.tree
  return ending.code.toUInt32

end ModuleRules.Main

def main (args : List String) : IO UInt32 := ModuleRules.Main.run (args.map String.toList)
