import ModuleRules.Configuration.Directive
import ModuleRules.File.Fault
import ModuleRules.Property.Basic
import ModuleRules.Rule.Store
import ModuleRules.Text.Line

/-!
# Loading configurations

A source is read line by line. A line that turns to a module makes sure that
the module has a rule set; a rule line appends to the set of the module turned
to last. Lines that cannot be used are skipped with a warning, and after a
turn that cannot be used so are the rules up to the next turn. Reading stops
at a rule before the first turn and at a placeholder without a property.

Each source starts afresh, but all sources fill one store. A source that stops
early leaves in the store what it added, and no warnings.
-/

namespace ModuleRules

structure Warning where
  source : Text
  line : Nat
  content : Text
  problem : Problem
  deriving DecidableEq, Repr

def Warning.text (w : Warning) : Text :=
  Text.ofNat w.line ++
    match w.problem with
    | .unrecognized =>
      ":Lines should be blank or start with module:, include:, export: or optional: - " ++
        w.content
    | .malformed k flaw =>
      ":Malformed " ++ k.text ++ " directive (" ++ flaw.message ++ ") - " ++ w.content

inductive LoadError
  | unreadable (source : Text) (fault : FileFault)
  | ruleBeforeModule (source : Text) (line : Nat) (directive : Text)
  | missingProperty (property artifact source : Text) (line : Nat)
  deriving DecidableEq, Repr

def LoadError.message : LoadError → Text
  | unreadable source fault => "Failed to read " ++ source ++ ": " ++ fault.message
  | ruleBeforeModule source line directive =>
    source ++ ":" ++ Text.ofNat line ++ ": '" ++ directive ++
      "' appears before any module: directive"
  | missingProperty property artifact source line =>
    "Missing build property '" ++ property ++ "' for rewriting artifact " ++ artifact ++ " (" ++
      source ++ ":" ++ Text.ofNat line ++ ")"

def LoadError.trace (e : LoadError) : Text :=
  match e with
  | unreadable _ fault => e.message ++ ": " ++ fault.message
  | e => e.message

/-! ## One source -/

inductive Scope
  /-- No line has turned to a module yet. -/
  | outside
  | within (id : ModuleId)
  /-- The last line that should turn to a module could not be used. -/
  | detached
  deriving DecidableEq, Repr

structure Reading where
  store : RuleStore
  scope : Scope := .outside
  warnings : List Warning := []

/-- The rule with its placeholder filled in, or the property that is missing and the artifact
it is needed for. -/
def Rule.resolve (properties : Properties) : Rule → Except (Text × Text) Rule
  | .force selector version =>
    match placeholder? version with
    | none => .ok (.force selector version)
    | some property =>
      match properties property with
      | some value => .ok (.force selector value)
      | none => .error (property, selector.text)
  | r => .ok r

namespace Reading

def warn (w : Warning) (s : Reading) : Reading := { s with warnings := s.warnings ++ [w] }

def feed (properties : Properties) (source : Text) (n : Nat) (raw : Text) (s : Reading) :
    Except LoadError Reading :=
  let line := Text.trim raw
  if line = [] then .ok s
  else match Directive.parse line with
    | .error (.malformed .turn flaw) =>
      .ok ({ s with scope := .detached }.warn ⟨source, n, line, .malformed .turn flaw⟩)
    | .error problem => .ok (s.warn ⟨source, n, line, problem⟩)
    | .ok (.turn id) => .ok { s with store := s.store.touch id, scope := .within id }
    | .ok (.rule r) =>
      match s.scope with
      | .outside => .error (.ruleBeforeModule source n line)
      | .detached => .ok (s.warn ⟨source, n, line, .malformed r.keyword .noModule⟩)
      | .within id =>
        match r.resolve properties with
        | .ok r => .ok { s with store := s.store.push id r }
        | .error (property, artifact) => .error (.missingProperty property artifact source n)

/-- Reads the lines from the number `n` on, up to the first that stops it. A line may itself be
unreadable. -/
def feedAll (properties : Properties) (source : Text) :
    Nat → List (Except FileFault Text) → Reading → Reading × Option LoadError
  | _, [], s => (s, none)
  | _, .error fault :: _, s => (s, some (.unreadable source fault))
  | n, .ok line :: rest, s =>
    match s.feed properties source n line with
    | .error e => (s, some e)
    | .ok s => feedAll properties source (n + 1) rest s

end Reading

/-! ## Many sources -/

structure Loaded where
  store : RuleStore := .empty
  /-- The sources that were read to their end, in order. -/
  sources : List Text := []
  warnings : List Warning := []

namespace Loaded

def addLines (properties : Properties) (source : Text) (lines : List (Except FileFault Text))
    (l : Loaded) : Loaded × Option LoadError :=
  match Reading.feedAll properties source 1 lines { store := l.store } with
  | (s, none) => (⟨s.store, l.sources ++ [source], l.warnings ++ s.warnings⟩, none)
  | (s, some e) => ({ l with store := s.store }, some e)

def addText (properties : Properties) (source text : Text) (l : Loaded) :
    Loaded × Option LoadError :=
  l.addLines properties source ((Text.lines text).map .ok)

end Loaded

end ModuleRules
