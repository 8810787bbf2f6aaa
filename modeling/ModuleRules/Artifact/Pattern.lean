import ModuleRules.Artifact.Glob

/-!
# Removal patterns

A pattern is read as a glob when its text is one, and matches its own text in
any case.
-/

namespace ModuleRules

structure Pattern where
  text : Text
  deriving DecidableEq, Repr

def Pattern.covers (p : Pattern) (t : Text) : Bool :=
  p.text = t ||
    match Glob.parse? p.text with
    | some tokens => Glob.accepts tokens t
    | none => false

end ModuleRules
