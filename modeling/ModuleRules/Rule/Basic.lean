import ModuleRules.Rule.Keyword
import ModuleRules.Descriptor.Basic

/-!
# Rules

A rule changes a descriptor in one way. Applying it tells what was done, or
nothing when the descriptor held nothing the rule is aimed at. Rules are
applied one after another, each to what the ones before it left.
-/

namespace ModuleRules

inductive Rule
  | replace (old new : ModuleId)
  | makeOptional (id : ModuleId)
  | add (target : ModuleRef)
  | addExported (target : ModuleRef)
  | remove (pattern : Pattern)
  | force (selector : Selector) (version : Text)
  deriving DecidableEq, Repr

/-- What a rule did: its keyword without the colon, and a message. -/
structure Change where
  rule : Text
  message : Text
  deriving DecidableEq, Repr

namespace Rule

def keyword : Rule → Keyword
  | replace .. => .replace
  | makeOptional _ => .optional
  | add _ => .add
  | addExported _ => .addExported
  | remove _ => .remove
  | force .. => .force

def body : Rule → Text
  | replace old new => old.text ++ '>' :: new.text
  | makeOptional id => id.text
  | add target => target.text
  | addExported target => target.text
  | remove pattern => pattern.text
  | force selector version => selector.text ++ '=' :: version

def text (r : Rule) : Text := r.keyword.text ++ r.body

def changeOf (r : Rule) (count : Nat) (message : Text) : Option Change :=
  if count = 0 then none else some ⟨r.keyword.name, message⟩

def message (count : Nat) : Rule → Text
  | replace old new => "Replace dependency " ++ old.text ++ " with " ++ new.text
  | makeOptional id => "Mark dependency " ++ id.text ++ " optional"
  | add target => "Add dependency " ++ target.text
  | addExported target => "Add exported dependency " ++ target.text
  | remove pattern =>
    "Remove " ++ Text.ofNat count ++ " resource(s) matching " ++ pattern.text
  | force selector version => "Set version of " ++ selector.text ++ " to " ++ version

/-- The descriptor afterwards and the number of entries concerned. -/
def act (d : Descriptor) : Rule → Descriptor × Nat
  | replace old new => d.replaceDependency old new
  | makeOptional id => d.markOptional id
  | add target => (d.addDependency target false, 1)
  | addExported target => (d.addDependency target true, 1)
  | remove pattern => d.removeResources pattern
  | force selector version => d.setVersion selector version

def apply (r : Rule) (d : Descriptor) : Descriptor × Option Change :=
  let (d', count) := r.act d
  (d', r.changeOf count (r.message count))

end Rule

abbrev RuleSet := List Rule

/-- Applies the rules in order; the changes are in that order too. -/
def RuleSet.apply : RuleSet → Descriptor → Descriptor × List Change
  | [], d => (d, [])
  | r :: rs, d =>
    let (d₁, change) := r.apply d
    let (d₂, changes) := RuleSet.apply rs d₁
    (d₂, change.toList ++ changes)

end ModuleRules
