import ModuleRules.CommandLine.Amendment
import ModuleRules.CommandLine.Task
import ModuleRules.Configuration.Discovery
import ModuleRules.Property.File

/-!
# Runs

A run reads its arguments, works on a file tree and ends with an exit code,
what it showed and the tree as it is then.
-/

namespace ModuleRules.CommandLine

def programName : Text := "modrewrite"

inductive RunError
  | unknownFormat (name : Text)
  | properties (e : PropertyError)
  | configuration (e : LoadError)
  | projectConfiguration (directory : Text) (e : LoadError)
  | project (e : ProjectError)
  deriving DecidableEq, Repr

def RunError.message : RunError → Text
  | unknownFormat name =>
    "Invalid output format '" ++ name ++ "'. Valid options: text, json, diff"
  | properties e => e.message
  | configuration e => "Failed to load module rewrite configuration: " ++ e.trace
  | projectConfiguration directory e =>
    "Failed to load module rewrite configuration for " ++ directory ++ ": " ++ e.trace
  | project e => e.message

structure Ending where
  code : Nat := 0
  output : Output := {}
  tree : FileTree

/-! ## Preparation -/

def FormatChoice.format (f : FormatChoice) : Except RunError Format :=
  if f.json then .ok .json
  else match Format.ofName? f.name with
    | some x => .ok x
    | none => .error (.unknownFormat f.name)

/-- The build properties: those of the file, then the settings. -/
def Sources.buildProperties (s : Sources) (t : FileTree) : Except RunError BuildProperties := do
  let p ← match s.properties with
    | some path => (BuildProperties.ofFile t path).mapError .properties
    | none => .ok {}
  return p.extend s.settings

/-- Loads the configuration files that are named, or else those of the project. -/
def Sources.load (s : Sources) (t : FileTree) : Except RunError Loaded := do
  let p ← s.buildProperties t
  if s.files = [] then
    let directory := s.directory.getD t.workingPath
    (Configuration.loadProject t p.get? directory).mapError (.projectConfiguration directory)
  else (Configuration.loadFiles t p.get? s.files).mapError .configuration

/-! ## Tasks -/

def labelled (color : Bool) (style : Style) (label t : Text) : Text :=
  style.paint color label ++ ':' :: ' ' :: t

def showSources (color : Bool) (l : Loaded) : Output :=
  .lines (l.sources.map (labelled color .bold "Using config") ++ [[]])

def showMissing (color : Bool) (paths : List Text) : Output :=
  .errors (paths.map fun p => labelled color .yellow "Warning" ("Path does not exist: " ++ p))

def amend (color : Bool) (paths : List Text) (fix verbose : Bool) (s : Sources) (f : FormatChoice)
    (t : FileTree) : Except RunError Ending := do
  let format ← f.format
  let mode : Mode := if fix then .fix else .check
  let loaded ← s.load t
  let found := DescriptorFiles.collect t paths
  let revisions := found.files.map fun path => (path, Revision.ofFile t loaded.store path)
  let (reporter, shown, t) := Reporter.settleAll ⟨format, mode, verbose, color, [], {}⟩ t revisions
  let start := if verbose ∧ format = .text then showSources color loaded else {}
  return ⟨reporter.summary.exitCode mode,
    start ++ showMissing color found.missing ++ shown ++ reporter.finish, t⟩

def rules (color : Bool) (s : Sources) (f : FormatChoice) (t : FileTree) :
    Except RunError Ending := do
  let format ← f.format
  let loaded ← s.load t
  return ⟨0, loaded.showRules format color, t⟩

def showError (color : Bool) (e : RunError) : Output :=
  .errors [labelled color .red "Error" e.message]

def generate (color : Bool) (b : ProjectBuilder) (boms : List Text) (t : FileTree) : Ending :=
  match b.generate boms t with
  | (t, .ok directory) => ⟨0, .lines [labelled color .green "Generated" directory], t⟩
  | (t, .error e) => ⟨1, showError color (.project e), t⟩

/-- An error shows its message and leaves the tree as it was. -/
def orError (color : Bool) (t : FileTree) : Except RunError Ending → Ending
  | .ok e => e
  | .error e => ⟨1, showError color e, t⟩

def Task.run (color : Bool) (t : FileTree) : Task → Ending
  | .amend paths fix verbose s f =>
    orError color t (CommandLine.amend color paths fix verbose s f t)
  | .rules s f => orError color t (CommandLine.rules color s f t)
  | .generate b boms => CommandLine.generate color b boms t

/-! ## Arguments -/

def usage : Output := .lines [
  "Usage: modrewrite [-v] <COMMAND>",
  [],
  "  rewrite [--fix] [SOURCES] [FORMAT] <PATHS>...",
  "  rules [SOURCES] [FORMAT]",
  "  scaffold --template FILE [--target-dir DIR] [--skip GROUP:ARTIFACT]... <BOMS>...",
  [],
  "SOURCES: [--project-dir DIR] [--config FILE]... [--properties FILE] [-D KEY=VALUE]...",
  "FORMAT: [--format text|json|diff] [--json]"]

def run (color : Bool) (args : List Text) (t : FileTree) : Ending :=
  match Task.parse args with
  | .ok task => task.run color t
  | .error .version => ⟨0, .lines [programName ++ ' ' :: versionText], t⟩
  | .error .help => ⟨0, usage, t⟩
  | .error .misuse => ⟨2, ⟨[], usage.out⟩, t⟩

end ModuleRules.CommandLine
