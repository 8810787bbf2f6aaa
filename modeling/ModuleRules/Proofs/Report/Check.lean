import Mathlib.Tactic.Common
import ModuleRules.CommandLine.Amendment

/-!
# What a check counts

A check counts a descriptor as failed when it could not be revised and as
amended when its revision is pending, whatever that revision is.
-/

namespace ModuleRules

def Revision.isPending : Except RevisionError Revision → Bool
  | .ok r => r.after.isSome
  | .error _ => false

theorem Report.settle_check (path : Text) (r : Except RevisionError Revision) (t : FileTree)
    (s : Summary) :
    (s.add (settle .check path r t).1.outcome).failed = s.failed + (if !r.isOk then 1 else 0) ∧
      (s.add (settle .check path r t).1.outcome).amended =
        s.amended + (if Revision.isPending r then 1 else 0) := by
  cases r with
  | error e => exact ⟨rfl, rfl⟩
  | ok r =>
    obtain ⟨id, changes, before, after⟩ := r
    cases after <;> exact ⟨rfl, rfl⟩

namespace Reporter

/-- One report at a time: the rest is settled by a reporter that has counted the first. -/
theorem settleAll_cons (p : Reporter) (t : FileTree) (path : Text)
    (r : Except RevisionError Revision) (rs : List (Text × Except RevisionError Revision)) :
    ∃ (q : Reporter) (u : FileTree), (p.settleAll t ((path, r) :: rs)).1 = (q.settleAll u rs).1 ∧
      q.mode = p.mode ∧ q.summary = p.summary.add (Report.settle p.mode path r t).1.outcome :=
  ⟨_, _, rfl, rfl, rfl⟩

theorem counts_settleAll : ∀ (rs : List (Text × Except RevisionError Revision)) {p : Reporter}
    (t : FileTree), p.mode = .check →
      (p.settleAll t rs).1.summary.failed = p.summary.failed + rs.countP (!·.2.isOk) ∧
        (p.settleAll t rs).1.summary.amended =
          p.summary.amended + rs.countP (Revision.isPending ·.2)
  | [], _, _, _ => ⟨rfl, rfl⟩
  | (path, r) :: rs, p, t, hmode => by
    obtain ⟨q, u, hrest, hqmode, hsummary⟩ := settleAll_cons p t path r rs
    obtain ⟨hfailed, hamended⟩ := Report.settle_check path r t p.summary
    obtain ⟨ihfailed, ihamended⟩ := counts_settleAll rs u (hqmode.trans hmode)
    rw [hmode] at hsummary
    rw [hsummary, hfailed] at ihfailed
    rw [hsummary, hamended] at ihamended
    rw [hrest, List.countP_cons, List.countP_cons, ihfailed, ihamended]
    exact ⟨by ac_rfl, by ac_rfl⟩

/-- A check ends with 2 when nothing failed and some revision is pending. -/
theorem exitCode_settleAll (rs : List (Text × Except RevisionError Revision)) (p : Reporter)
    (t : FileTree) (hmode : p.mode = .check) (hsummary : p.summary = {}) :
    (p.settleAll t rs).1.summary.exitCode .check = 2 ↔
      (∀ r ∈ rs, r.2.isOk = true) ∧ ∃ r ∈ rs, Revision.isPending r.2 = true := by
  obtain ⟨hfailed, hamended⟩ := counts_settleAll rs t hmode
  rw [hsummary, Nat.zero_add] at hfailed hamended
  have hnone : rs.countP (!·.2.isOk) = 0 ↔ ∀ r ∈ rs, r.2.isOk = true := by
    simp [List.countP_eq_zero]
  rw [← hnone, ← List.countP_pos_iff, ← hfailed, ← hamended]
  unfold Summary.exitCode
  split
  next h => simp; omega
  next h => simp; omega

end Reporter

end ModuleRules
