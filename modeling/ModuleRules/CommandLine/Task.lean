import ModuleRules.Bom.Project
import ModuleRules.CommandLine.Switch
import ModuleRules.Property.Basic

/-!
# Tasks

What a run can be asked for: to amend descriptors, to show the rules of a
project, or to generate a project. The first plain argument says which; being
verbose may be asked for before it and after it.
-/

namespace ModuleRules.CommandLine

structure Sources where
  directory : Option Text := none
  /-- If there are any, exactly these configuration files are loaded. -/
  files : List Text := []
  properties : Option Text := none
  settings : List (Text × Text) := []
  deriving DecidableEq, Repr

structure FormatChoice where
  name : Text := "text"
  json : Bool := false
  deriving DecidableEq, Repr

inductive Task
  | amend (paths : List Text) (fix verbose : Bool) (s : Sources) (f : FormatChoice)
  | rules (s : Sources) (f : FormatChoice)
  | generate (b : ProjectBuilder) (boms : List Text)

/-! ## Switches -/

def isPath (t : Text) : Bool := !t.isEmpty

def Switch.help : Switch := { word := helpWord, letter := some 'h' }

def Switch.verbose : Switch := { word := "verbose", letter := some 'v' }

def Switch.version : Switch := { word := versionWord, letter := some 'V' }

def Switch.projectDir : Switch := { word := "project-dir", taking := .once, accepts := isPath }

def Switch.config : Switch := { word := "config", taking := .often, accepts := isPath }

def Switch.properties : Switch := { word := "properties", taking := .once, accepts := isPath }

def Switch.property : Switch :=
  { word := "property", letter := some 'D', taking := .often,
    accepts := fun t => (BuildProperties.parseSetting? t).isSome }

def Switch.format : Switch := { word := "format", taking := .once }

def Switch.json : Switch := { word := "json" }

def Switch.fix : Switch := { word := "fix" }

def Switch.template : Switch := { word := "template", taking := .once, accepts := isPath }

def Switch.targetDir : Switch := { word := "target-dir", taking := .once, accepts := isPath }

def Switch.skip : Switch := { word := "skip", taking := .often }

def anywhere : List Switch := [.help, .verbose]

def sourceSwitches : List Switch := [.projectDir, .config, .properties, .property]

def formatSwitches : List Switch := [.format, .json]

/-! ## Reading -/

def Sources.ofGiven (g : Given) : Sources where
  directory := g.first? Switch.projectDir.word
  files := g.all Switch.config.word
  properties := g.first? Switch.properties.word
  settings := (g.all Switch.property.word).filterMap BuildProperties.parseSetting?

def FormatChoice.ofGiven (g : Given) : FormatChoice :=
  let f : FormatChoice := {}
  ⟨(g.first? Switch.format.word).getD f.name, g.has Switch.json.word⟩

def paths (g : Given) : Except Refusal (List Text) :=
  if g.values = [] ∨ !g.values.all isPath then .error .misuse else .ok g.values

def Task.amendOf (wordy : Bool) (args : List Text) : Except Refusal Task := do
  let g ← readGiven (.fix :: sourceSwitches ++ formatSwitches ++ anywhere) {} args
  let wordy := wordy || g.has Switch.verbose.word
  return .amend (← paths g) (g.has Switch.fix.word) wordy (.ofGiven g) (.ofGiven g)

def Task.rulesOf (args : List Text) : Except Refusal Task := do
  let g ← readGiven (sourceSwitches ++ formatSwitches ++ anywhere) {} args
  if g.values = [] then return .rules (.ofGiven g) (.ofGiven g) else .error .misuse

def defaultTarget : Text := "target"

def Task.generateOf (args : List Text) : Except Refusal Task := do
  let g ← readGiven ([.template, .targetDir, .skip] ++ anywhere) {} args
  match g.first? Switch.template.word with
  | none => .error .misuse
  | some t =>
    let target := (g.first? Switch.targetDir.word).getD defaultTarget
    return .generate ⟨t, target, g.all Switch.skip.word⟩ (← paths g)

/-- The task that the arguments ask for; `g` holds the switches that precede its name. -/
def Task.parseAfter : Given → List Text → Except Refusal Task
  | _, [] => .error .misuse
  | g, a :: rest =>
    match String.ofList a with
    | "rewrite" => amendOf (g.has Switch.verbose.word) rest
    | "rules" => rulesOf rest
    | "scaffold" => generateOf rest
    | "help" => .error .help
    | _ =>
      if isDashed a then
        match dashed (.version :: anywhere) g a with
        | .ok (g, _) => parseAfter g rest
        | .error e => .error e
      else .error .misuse

def Task.parse (args : List Text) : Except Refusal Task := parseAfter {} args

end ModuleRules.CommandLine
