import ModuleRules.Ascending
import ModuleRules.Rule.Basic

/-!
# Reports and their summary

What happened to each descriptor of a run, and how often: a descriptor that
failed counts none of its changes.
-/

namespace ModuleRules

inductive Outcome
  | unchanged
  | amended (changes : List Change) (written : Bool)
  | failed (error : Text)
  deriving DecidableEq, Repr

/-- What happened to the descriptor at a path; its module is known if it could be read. -/
structure Report where
  id : Option Text
  path : Text
  outcome : Outcome
  deriving DecidableEq, Repr

def Report.label (r : Report) : Text :=
  match r.id with
  | some id => id ++ " (" ++ r.path ++ ")"
  | none => r.path

structure Summary where
  descriptors : Nat := 0
  amended : Nat := 0
  failed : Nat := 0
  /-- The number of changes of each rule, in the order of the rules. -/
  changesByRule : List (Text × Nat) := []
  deriving DecidableEq, Repr

namespace Summary

def countChange (counts : List (Text × Nat)) (c : Change) : List (Text × Nat) :=
  Ascending.alter c.rule (fun n => n.getD 0 + 1) counts

def add (s : Summary) (o : Outcome) : Summary :=
  let s := { s with descriptors := s.descriptors + 1 }
  match o with
  | .unchanged => s
  | .amended changes _ =>
    { s with amended := s.amended + 1, changesByRule := changes.foldl countChange s.changesByRule }
  | .failed _ => { s with failed := s.failed + 1 }

def totalChanges (s : Summary) : Nat := (s.changesByRule.map (·.2)).foldr (· + ·) 0

end Summary

end ModuleRules
