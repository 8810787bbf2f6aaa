import ModuleRules.Rule.Basic

/-!
# Directives

One line of a configuration turns to a module or declares a rule for the
module that was turned to last. The version of a forced artifact is still as
written here, and may be a placeholder.
-/

namespace ModuleRules

inductive Directive
  | turn (id : ModuleId)
  | rule (r : Rule)
  deriving DecidableEq, Repr

inductive Flaw
  | emptyName
  | noArrow
  | manyArrows
  | emptyPattern
  | noEquals
  | badSelector (e : ReferenceError)
  | emptyVersion
  /-- The last line that should turn to a module was no use. -/
  | noModule
  deriving DecidableEq, Repr

def Flaw.message : Flaw → Text
  | emptyName => "empty module name"
  | noArrow => "expected <module>'>'<module>"
  | manyArrows => "more than one '>'"
  | emptyPattern => "empty pattern"
  | noEquals => "expected <artifact>=<version>"
  | badSelector e => e.message
  | emptyVersion => "empty version"
  | noModule => "no valid module: directive in effect"

inductive Problem
  /-- It starts with no keyword. -/
  | unrecognized
  | malformed (keyword : Keyword) (flaw : Flaw)
  deriving DecidableEq, Repr

namespace Directive

def keyword : Directive → Keyword
  | turn _ => .turn
  | rule r => r.keyword

def text : Directive → Text
  | turn id => Keyword.turn.text ++ id.text
  | rule r => r.text

/-! ## Reading -/

def reference (t : Text) : Except Flaw ModuleRef :=
  let r := ModuleRef.read t
  if r.name = [] then .error .emptyName else .ok r

def moduleId (t : Text) : Except Flaw ModuleId := (reference t).map ModuleRef.identity

def replacement (t : Text) : Except Flaw Rule :=
  match Text.splitOnce '>' t with
  | none => .error .noArrow
  | some (old, new) =>
    if '>' ∈ new then .error .manyArrows
    else do
      let old ← moduleId old
      let new ← moduleId new
      return .replace old new

def removal (t : Text) : Except Flaw Rule :=
  match Text.trim t with
  | [] => .error .emptyPattern
  | c :: r => .ok (.remove ⟨c :: r⟩)

def forcing (t : Text) : Except Flaw Rule :=
  match Text.splitOnce '=' t with
  | none => .error .noEquals
  | some (selector, version) =>
    match Selector.parse selector with
    | .error e => .error (.badSelector e)
    | .ok selector =>
      match Text.trim version with
      | [] => .error .emptyVersion
      | c :: r => .ok (.force selector (c :: r))

def ofBody (t : Text) : Keyword → Except Flaw Directive
  | .turn => (moduleId t).map turn
  | .add => (reference t).map (rule ∘ .add)
  | .addExported => (reference t).map (rule ∘ .addExported)
  | .optional => (moduleId t).map (rule ∘ .makeOptional)
  | .replace => (replacement t).map rule
  | .remove => (removal t).map rule
  | .force => (forcing t).map rule

def parse (line : Text) : Except Problem Directive :=
  match Keyword.ofLine? line with
  | none => .error .unrecognized
  | some (k, body) => (ofBody body k).mapError (.malformed k)

end Directive

end ModuleRules
