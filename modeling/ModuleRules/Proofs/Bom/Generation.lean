import ModuleRules.Bom.Project
import ModuleRules.Proofs.File.Directory

/-!
# What a failed generation leaves behind

All inputs are read before the project's directory is made, and the template
is rendered after it. So a generation that fails because of an input leaves
the tree as it was, unless what fails is the rendering: then the directory
stays, and it is in the way of the next attempt (`tree_of_generate_error`).
-/

namespace ModuleRules

open Text.Utf8

def ProjectError.isOfInput : ProjectError → Bool
  | directoryFault .. | unwritable .. => false
  | _ => true

namespace ProjectBuilder

def directory (b : ProjectBuilder) (boms : List Bom) : Text :=
  Path.join b.target (Bom.projectName boms)

inductive Ends (b : ProjectBuilder) (paths : List Text) (t : FileTree) :
    FileTree → Except ProjectError Text → Prop
  | unread {e : ProjectError} (h : b.inputs paths t = .error e) : Ends b paths t t (.error e)
  | taken {template : Text} {boms : List Bom} (h : b.inputs paths t = .ok (template, boms))
      (hhas : t.has (b.directory boms) = true) :
      Ends b paths t t (.error (.directoryExists (b.directory boms)))
  | unmade {template : Text} {boms : List Bom} {u : FileTree} {fault : FileFault}
      (h : b.inputs paths t = .ok (template, boms)) :
      Ends b paths t u (.error (.directoryFault (b.directory boms) fault))
  | unwritten {template : Text} {boms : List Bom} {u : FileTree} {e : ProjectError}
      (h : b.inputs paths t = .ok (template, boms)) (hhas : t.has (b.directory boms) = false)
      (hmade : t.makeDirectories (b.directory boms) = (u, none))
      (hfail : writeProject template boms (b.directory boms) u = .error e) :
      Ends b paths t u (.error e)
  | written {template : Text} {boms : List Bom} {u v : FileTree}
      (h : b.inputs paths t = .ok (template, boms))
      (hmade : t.makeDirectories (b.directory boms) = (u, none))
      (hwrite : writeProject template boms (b.directory boms) u = .ok v) :
      Ends b paths t v (.ok (b.directory boms))

variable {b c : ProjectBuilder} {paths : List Text} {t u : FileTree} {e : ProjectError}

theorem generate_of_inputs {template : Text} {boms : List Bom}
    (h : b.inputs paths t = .ok (template, boms)) : b.generate paths t =
      match makeDirectory (b.directory boms) t with
      | (u, .error e) => (u, .error e)
      | (u, .ok ()) => match writeProject template boms (b.directory boms) u with
        | .ok u => (u, .ok (b.directory boms))
        | .error e => (u, .error e) := by
  simp only [generate, h]
  rfl

theorem ends_generate (b : ProjectBuilder) (paths : List Text) (t : FileTree) :
    Ends b paths t (b.generate paths t).1 (b.generate paths t).2 := by
  cases h : b.inputs paths t with
  | error e =>
    simp only [generate, h]
    exact .unread h
  | ok x =>
    obtain ⟨template, boms⟩ := x
    rw [generate_of_inputs h]
    unfold makeDirectory
    by_cases hhas : t.has (b.directory boms) = true
    · rw [if_pos hhas]
      exact .taken h hhas
    · rw [if_neg hhas]
      rw [Bool.not_eq_true] at hhas
      cases hmade : t.makeDirectories (b.directory boms) with
      | mk u fault =>
        cases fault with
        | some fault => exact .unmade h
        | none =>
          simp only
          cases hwrite : writeProject template boms (b.directory boms) u with
          | error e => exact .unwritten h hhas hmade hwrite
          | ok v => exact .written h hmade hwrite

theorem ne_unrendered_of_inputs (h : b.inputs paths t = .error e) (x : TemplateError) :
    e ≠ .unrendered x := by
  rintro rfl
  rcases bind_eq_error.1 h with htemplate | ⟨template, -, h⟩
  · unfold readTemplate at htemplate
    split at htemplate
    · cases htemplate
    · obtain ⟨fault, -, hfault⟩ := mapError_eq_error.1 htemplate
      cases hfault
  · rcases bind_eq_error.1 h with hboms | ⟨boms, -, h⟩
    · obtain ⟨path, -, hpath⟩ := exists_of_mapM_eq_error hboms
      unfold readBom at hpath
      split at hpath
      · cases hpath
      · split at hpath <;> cases hpath
    · cases h

theorem unrendered_of_writeProject {template directory : Text} {boms : List Bom}
    (h : writeProject template boms directory t = .error e) (he : e.isOfInput = true) :
    ∃ x, e = .unrendered x := by
  rcases bind_eq_error.1 h with hrender | ⟨text, -, hwrite⟩
  · obtain ⟨x, -, hx⟩ := mapError_eq_error.1 hrender
    exact ⟨x, hx.symm⟩
  · obtain ⟨fault, -, hfault⟩ := mapError_eq_error.1 hwrite
    rw [← hfault] at he
    cases he

theorem ends_of_generate {r : Except ProjectError Text} (h : b.generate paths t = (u, r)) :
    Ends b paths t u r := by
  have hends := ends_generate b paths t
  rw [h] at hends
  exact hends

/-- Where the directory is still there, no further project is made for the same names. -/
theorem generate_of_has {template : Text} {boms : List Bom}
    (h : b.inputs paths t = .ok (template, boms)) (hhas : t.has (b.directory boms) = true) :
    b.generate paths t = (t, .error (.directoryExists (b.directory boms))) := by
  rw [generate_of_inputs h, makeDirectory, if_pos hhas]

/-- **A failed generation leaves the tree as it was unless the template cannot be rendered.** If
that is what fails, the project's directory has come into being, and as long as only contents of
files are changed after it, every generation for the same directory is refused. -/
theorem tree_of_generate_error (h : b.generate paths t = (u, .error e))
    (he : e.isOfInput = true) :
    (u = t ↔ ∀ x, e ≠ .unrendered x) ∧
      ∀ x, e = .unrendered x → ∃ template boms, b.inputs paths t = .ok (template, boms) ∧
        t.has (b.directory boms) = false ∧ u.has (b.directory boms) = true ∧
        t.makeDirectories (b.directory boms) = (u, none) ∧
        ∀ v, v.IsShapedAs u → ∀ c paths' template' boms',
          ProjectBuilder.inputs c paths' v = .ok (template', boms') →
          c.directory boms' = b.directory boms →
            c.generate paths' v = (v, .error (.directoryExists (b.directory boms))) := by
  cases ends_of_generate h with
  | unread hinputs =>
    have hne := ne_unrendered_of_inputs hinputs
    exact ⟨iff_of_true rfl hne, fun x hx => absurd hx (hne x)⟩
  | taken => exact ⟨iff_of_true rfl (by simp), by simp⟩
  | unmade => cases he
  | unwritten hinputs hhas hmade hfail =>
    have hnew := FileTree.has_of_makeDirectories hmade
    obtain ⟨x, hx⟩ := unrendered_of_writeProject hfail he
    refine ⟨iff_of_false ?_ fun hno => hno x hx, fun x _ => ⟨_, _, hinputs, hhas, hnew, hmade, ?_⟩⟩
    · rintro rfl
      rw [hhas] at hnew
      cases hnew
    · intro v hv c paths' template' boms' hinputs' hdirectory
      rw [← hv.has_eq, ← hdirectory] at hnew
      rw [generate_of_has hinputs' hnew, hdirectory]

theorem tree_of_generate_error_nameless :
    let t : FileTree :=
      ⟨[(["t"], .file (encode "\x7b\x7bname\x7d\x7d")), (["bom"], .file (encode "<project/>"))], []⟩
    let b : ProjectBuilder := ⟨"t", "new/deep", []⟩
    b.generate ["bom"] t = (t, .error (.bomNameless "bom")) := by
  intro t b
  have herror : (b.generate ["bom"] t).2 = .error (.bomNameless "bom") := by decide +kernel
  generalize h : b.generate ["bom"] t = x at herror
  obtain ⟨u, r⟩ := x
  obtain rfl : r = .error (.bomNameless "bom") := herror
  rw [(tree_of_generate_error h rfl).1.2 (by simp)]

/-- The template is no template, and with a better one the same project is refused. -/
theorem generate_ne_of_unrendered :
    let t : FileTree :=
      ⟨[(["bad"], .file (encode "\x7b\x7b")), (["good"], .file (encode "\x7b\x7bname\x7d\x7d")),
        (["bom"], .file (encode "<project><artifactId>a</artifactId></project>"))], []⟩
    let bad : ProjectBuilder := ⟨"bad", ".", []⟩
    let good : ProjectBuilder := ⟨"good", ".", []⟩
    let u := (bad.generate ["bom"] t).1
    (bad.generate ["bom"] t).2 = .error (.unrendered .syntaxFlaw) ∧ u ≠ t ∧
      (good.generate ["bom"] t).2 = .ok "./generated-project_a" ∧
      (good.generate ["bom"] u).2 = .error (.directoryExists "./generated-project_a") := by
  intro t bad good u
  have hold : t.has "./generated-project_a" = false := by decide +kernel
  have hnew : u.has "./generated-project_a" = true := by decide +kernel
  refine ⟨by decide +kernel, ?_, by decide +kernel, by decide +kernel⟩
  intro h
  rw [h, hold] at hnew
  cases hnew

end ProjectBuilder

end ModuleRules
