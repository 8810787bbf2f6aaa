import ModuleRules.Descriptor.Collection
import ModuleRules.Descriptor.Revision
import ModuleRules.Diff.Unified
import ModuleRules.Report.Output

/-!
# Amending descriptors

The revisions of all descriptors are found before any is written. Each then
has its report: a revision that changes nothing leaves its descriptor as it
is, and the others are written if the descriptors are to be fixed.
-/

namespace ModuleRules

/-- The report on a descriptor, and the tree after it was written if it had to be. -/
def Report.settle (mode : Mode) (path : Text) (r : Except RevisionError Revision) (t : FileTree) :
    Report × FileTree :=
  match r with
  | .error e => (⟨none, path, .failed e.message⟩, t)
  | .ok r =>
    match r.after, mode with
    | none, _ => (⟨some r.id.text, path, .unchanged⟩, t)
    | some _, .check => (⟨some r.id.text, path, .amended r.changes false⟩, t)
    | some after, .fix =>
      match Revision.writeText path after t with
      | .ok t => (⟨some r.id.text, path, .amended r.changes true⟩, t)
      | .error e => (⟨none, path, .failed e.message⟩, t)

def Revision.diff? (path : Text) : Except RevisionError Revision → Option Text
  | .ok r => r.after.map (Diff.unified path r.before)
  | .error _ => none

def Reporter.settleAll (p : Reporter) (t : FileTree) :
    List (Text × Except RevisionError Revision) → Reporter × Output × FileTree
  | [] => (p, {}, t)
  | (path, r) :: rest =>
    let (report, t) := Report.settle p.mode path r t
    let diff := if p.format = .diff then Revision.diff? path r else none
    let (p, shown) := p.record report diff
    let (p, later, t) := settleAll p t rest
    (p, shown ++ later, t)

def Summary.exitCode (mode : Mode) (s : Summary) : Nat :=
  if s.failed > 0 then 1
  else if mode = .check ∧ s.amended > 0 then 2
  else 0

end ModuleRules
