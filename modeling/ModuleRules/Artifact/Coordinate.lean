import ModuleRules.Artifact.Reference

/-!
# Artifact coordinates

`group:artifact[:version[:classifier]]`, possibly written as an expression
`${…}`, which leaves the version to be resolved later.
-/

namespace ModuleRules

/-- What stands inside `${` and `}`, when these enclose the whole text. -/
def placeholder? (t : Text) : Option Text :=
  (Text.after? "$\x7b" t).bind (Text.beforeLast? '\x7d')

structure Coordinate where
  group : Text
  artifact : Text
  version : Option Text := none
  classifier : Option Text := none
  /-- Written as `${…}`. -/
  expression : Bool := false
  deriving DecidableEq, Repr

namespace Coordinate

def segments (c : Coordinate) : Segments := ⟨c.group, c.artifact, c.version, c.classifier⟩

def ofSegments (s : Segments) (expression : Bool) : Coordinate :=
  ⟨s.group, s.artifact, s.third, s.fourth, expression⟩

def bareText (c : Coordinate) : Text := c.segments.text

def text (c : Coordinate) : Text :=
  if c.expression then "$\x7b" ++ c.bareText ++ "\x7d" else c.bareText

def parse (t : Text) : Except ReferenceError Coordinate :=
  match placeholder? (Text.trim t) with
  | some body => (Segments.parse body t).map (ofSegments · true)
  | none => (Segments.parse (Text.trim t) t).map (ofSegments · false)

end Coordinate

end ModuleRules
