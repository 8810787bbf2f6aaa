import ModuleRules.Artifact.Coordinate

/-!
# Artifact selectors

`group:artifact[:packaging[:classifier]]` selects the artifacts of that group
and name, and of that classifier when it has one. Coordinates carry no
packaging, so that segment selects nothing.
-/

namespace ModuleRules

structure Selector where
  group : Text
  artifact : Text
  packaging : Option Text := none
  classifier : Option Text := none
  deriving DecidableEq, Repr

namespace Selector

def segments (s : Selector) : Segments := ⟨s.group, s.artifact, s.packaging, s.classifier⟩

def ofSegments (s : Segments) : Selector := ⟨s.group, s.artifact, s.third, s.fourth⟩

def text (s : Selector) : Text := s.segments.text

def parse (t : Text) : Except ReferenceError Selector :=
  (Segments.parse (Text.trim t) t).map ofSegments

def selects (s : Selector) (c : Coordinate) : Bool :=
  s.group == c.group && s.artifact == c.artifact &&
    match s.classifier with
    | some k => c.classifier == some k
    | none => true

end Selector

end ModuleRules
