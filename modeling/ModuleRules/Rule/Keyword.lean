import ModuleRules.Text.Basic

/-!
# Keywords

A line of a configuration starts with one of seven keywords and a colon. No
keyword is the beginning of another, so at most one of them starts a line.
-/

namespace ModuleRules

inductive Keyword
  | turn
  | add
  | addExported
  | optional
  | replace
  | remove
  | force
  deriving DecidableEq, Repr

namespace Keyword

def all : List Keyword := [turn, add, addExported, optional, replace, remove, force]

def name : Keyword → Text
  | turn => "module"
  | add => "include"
  | addExported => "export"
  | optional => "optional"
  | replace => "replace"
  | remove => "remove-artifact"
  | force => "force-artifact-version"

def text (k : Keyword) : Text := k.name ++ [':']

def ofLine? (line : Text) : Option (Keyword × Text) :=
  all.findSome? fun k => (Text.after? k.text line).map (k, ·)

end Keyword

end ModuleRules
