import ModuleRules.Bom.Basic
import ModuleRules.Proofs.Bom.Markup

/-!
# Comments and sections

What is taken out of a project file before its elements are read: comments
first, then the parent, the managed dependencies and the sections that
describe other things than the project.
-/

namespace ModuleRules.Bom

open Text Markup

variable {name inside t : Text}

/-- The sections that are looked into. -/
def readNames : List Text := ["parent", "dependencyManagement"]

/-- The sections that describe other things than the project. -/
def foreignNames : List Text :=
  ["dependencies", "build", "profiles", "properties", "modules", "reporting",
    "distributionManagement", "repositories", "pluginRepositories"]

def sectionNames : List Text := readNames ++ foreignNames

theorem sectionMarks_eq : sectionMarks = sectionNames.map Marks.ofTag := rfl

theorem mem_sectionMarks (h : name ∈ sectionNames) : Marks.ofTag name ∈ sectionMarks :=
  List.mem_map_of_mem h

theorem isName_of_mem_sectionNames : ∀ {name : Text}, name ∈ sectionNames → IsName name := by
  decide

theorem mem_sectionNames : ∀ {name : Text}, name ∈ foreignNames → name ∈ sectionNames := by
  decide

/-! ## Comments -/

theorem isProper_commentMarks : commentMarks.IsProper := ⟨by decide, by decide⟩

theorem isProper_of_mem_comments : ∀ m ∈ [commentMarks], m.IsProper :=
  List.forall_mem_singleton.2 isProper_commentMarks

theorem encloses_comment (h : ¬ ("-->" : Text) <:+: t) : commentMarks.Encloses t := by
  have hborderless : IsBorderless ("-->" : Text) := by
    intro v hsuffix
    have hv : v = "-->".toList ∨ v = "->".toList ∨ v = ">".toList ∨ v = [] := by
      simpa [List.suffix_cons_iff] using hsuffix
    rcases hv with rfl | rfl | rfl | rfl <;> decide
  exact fun rest => hborderless.cut? (by decide) rest h

theorem erases_comment (h : ¬ ("-->" : Text) <:+: t) : Erases [commentMarks] (commentMarks.around t) [] :=
  fun rest => remove_around isProper_of_mem_comments List.mem_cons_self (encloses_comment h)
    (fun _ hn _ _ => List.mem_singleton.1 hn) rest

/-- Where no comment begins, none is taken out. -/
theorem erases_of_no_comment (h : IsClear ('<' :: ['!', '-', '-']) t) : Erases [commentMarks] t t :=
  .of_isClear isProper_of_mem_comments (List.forall_mem_singleton.2 h)

theorem isClear_comment_tag (hlt : '<' ∉ name) (hbang : '!' ∉ name) :
    IsClear ('<' :: ['!', '-', '-']) (tag name) := by
  refine isClear_tag hlt fun rest hpre => ?_
  cases name with
  | nil => exact absurd (List.cons_prefix_cons.1 hpre).1 (by decide)
  | cons c name =>
    obtain rfl := (List.cons_prefix_cons.1 hpre).1
    exact hbang List.mem_cons_self

theorem isClear_comment_opening (hname : IsName name) : IsClear ('<' :: ['!', '-', '-']) (tag name) :=
  isClear_comment_tag (hname.not_mem (by simp)) (hname.not_mem (by simp))

theorem isClear_comment_closing (hname : IsName name) :
    IsClear ('<' :: ['!', '-', '-']) (tag ('/' :: name)) := by
  have hlt := hname.not_mem (c := '<') (by simp)
  have hbang := hname.not_mem (c := '!') (by simp)
  exact isClear_comment_tag (by simp [hlt]) (by simp [hbang])

theorem erases_comments_element {u : Text} (hname : IsName name) (h : Erases [commentMarks] t u) :
    Erases [commentMarks] (element name t) (element name u) :=
  (erases_of_no_comment (isClear_comment_opening hname)).append
    (h.append (erases_of_no_comment (isClear_comment_closing hname)))

/-! ## Sections -/

theorem isProper_of_mem_sections : ∀ m ∈ sectionMarks, m.IsProper := by
  rw [sectionMarks_eq, List.forall_mem_map]
  exact fun n _ => isProper_ofTag n

theorem erases_of_avoids (h : ∀ n ∈ sectionNames, Avoids n t) : Erases sectionMarks t t := by
  refine .of_isClear isProper_of_mem_sections ?_
  rw [sectionMarks_eq, List.forall_mem_map]
  exact fun n hn => (h n hn).opening

theorem erases_section (hname : name ∈ sectionNames) (h : (Marks.ofTag name).Encloses inside) :
    Erases sectionMarks (element name inside) [] := by
  refine fun rest => remove_around isProper_of_mem_sections (mem_sectionMarks hname) h ?_ rest
  rw [sectionMarks_eq, List.forall_mem_map]
  intro n hn t hpre
  have hgt := (isName_of_mem_sectionNames hn).not_mem (c := '>') (by simp)
  have hgt' := (isName_of_mem_sectionNames hname).not_mem (c := '>') (by simp)
  rw [eq_of_prefix_tag_append hgt hgt' hpre]

end ModuleRules.Bom
