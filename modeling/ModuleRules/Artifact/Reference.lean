import ModuleRules.Text.Blank

/-!
# Artifact references

Coordinates and selectors are both two to four segments between colons, of
which the first two, group and artifact, are not blank. A blank third or
fourth segment counts as missing.
-/

namespace ModuleRules

inductive ReferenceError
  | segmentCount (text : Text)
  | emptySegment (text : Text)
  deriving DecidableEq, Repr

def ReferenceError.message : ReferenceError → Text
  | segmentCount t =>
    "Artifact reference '" ++ t ++ "' needs between 2 and 4 ':'-separated segments"
  | emptySegment t => "Artifact reference '" ++ t ++ "' has an empty groupId or artifactId"

structure Segments where
  group : Text
  artifact : Text
  third : Option Text := none
  fourth : Option Text := none
  deriving DecidableEq, Repr

namespace Segments

def present? (piece : Text) : Option Text :=
  if piece = [] then none else some piece

def ofPieces? : List Text → Option Segments
  | [g, a] => some ⟨g, a, none, none⟩
  | [g, a, t] => some ⟨g, a, present? t, none⟩
  | [g, a, t, f] => some ⟨g, a, present? t, present? f⟩
  | _ => none

/-- Reads the segments of `body`; an error shows the trimmed `whole`. -/
def parse (body whole : Text) : Except ReferenceError Segments :=
  match ofPieces? ((Text.split ':' body).map Text.trim) with
  | none => .error (.segmentCount (Text.trim whole))
  | some s =>
    if s.group = [] ∨ s.artifact = [] then .error (.emptySegment (Text.trim whole))
    else .ok s

/-- A missing third segment is written empty when there is a fourth. -/
def text (s : Segments) : Text :=
  s.group ++ ':' :: s.artifact ++
    match s.third, s.fourth with
    | some t, some f => ':' :: t ++ ':' :: f
    | some t, none => ':' :: t
    | none, some f => ':' :: ':' :: f
    | none, none => []

end Segments

end ModuleRules
