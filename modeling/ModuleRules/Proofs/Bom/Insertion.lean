import ModuleRules.Proofs.Bom.Section

/-!
# Sections that describe something else

A further section of a project file leaves the elements of the project as they
are, but not always what is read of it: the parent and the managed
dependencies are searched for in the whole text, in the content of the section
too. What the section lends is exactly what it has of the two and no text
above it has.
-/

namespace ModuleRules.Bom

open Text Markup

variable {m : Marks} {name a c t : Text}

/-! ## Reading in parts -/

def stripped (t : Text) : Text := remove [commentMarks] t

def header (t : Text) : Text := remove sectionMarks (stripped t)

/-- What is read of a header and of the insides of the parent and the managed dependencies. -/
def described? (header : Text) (parent managed : Option Text) : Option Bom :=
  (element? "artifactId" header).map fun artifact =>
    ⟨(element? "groupId" header).or (element? "groupId" (parent.getD [])), artifact,
      (element? "version" header).or (element? "version" (parent.getD [])),
      (dependencyMarks.insides (managed.getD [])).filterMap dependency?⟩

theorem parse?_eq (t : Text) : parse? t =
    described? (header t) (parentMarks.first? (stripped t)) (managementMarks.first? (stripped t)) := rfl

/-! ## Complete texts -/

/-- What is opened in the text is closed in it: tags, comments and, without these, sections. -/
@[mk_iff]
structure IsComplete (t : Text) : Prop where
  comments : IsClosed [commentMarks] t
  sections : IsClosed sectionMarks (stripped t)

instance (t : Text) : Decidable (IsComplete t) := decidable_of_iff' _ (isComplete_iff t)

namespace IsComplete

variable (h : IsComplete t)
include h

theorem erases : Erases [commentMarks] t (stripped t) := by
  refine .of_isSettled isProper_of_mem_comments (List.forall_mem_singleton.2 ?_)
  exact h.comments.isSettled List.mem_cons_self isProper_commentMarks (o := ['!', '-', '-']) rfl (by decide)

theorem stripped_append (rest : Text) : stripped (t ++ rest) = stripped t ++ stripped rest :=
  h.erases rest

theorem isSettled (hname : name ∈ sectionNames) : (Marks.ofTag name).IsSettled (stripped t) := by
  have hgt := (isName_of_mem_sectionNames hname).not_mem (c := '>') (by simp)
  refine h.sections.isSettled (mem_sectionMarks hname) (isProper_ofTag name) (o := name ++ ['>']) rfl ?_
  rwa [List.dropLast_concat]

theorem first?_append (hname : name ∈ sectionNames) (rest : Text) :
    (Marks.ofTag name).first? (stripped (t ++ rest)) =
      ((Marks.ofTag name).first? (stripped t)).or ((Marks.ofTag name).first? (stripped rest)) := by
  rw [h.stripped_append, Markup.first?_append (isProper_ofTag name) (h.isSettled hname)]

theorem header_append (rest : Text) : header (t ++ rest) = header t ++ header rest := by
  rw [header, h.stripped_append]
  refine remove_append isProper_of_mem_sections ?_ _
  rw [sectionMarks_eq, List.forall_mem_map]
  exact fun n hn => h.isSettled hn

end IsComplete

/-! ## A further section -/

/-- A section that does not describe the project, where it stands at the level of the others. -/
structure IsInsertion (a name c : Text) : Prop where
  listed : name ∈ foreignNames
  before : IsComplete a
  content : IsComplete c
  closing : ¬ tag ('/' :: name) <:+: stripped c

namespace IsInsertion

variable (h : IsInsertion a name c)
include h

theorem stripped_section (b : Text) : stripped (element name c ++ b) =
    element name (stripped c) ++ stripped b :=
  erases_comments_element (isName_of_mem_sectionNames (mem_sectionNames h.listed)) h.content.erases b

theorem header_section (b : Text) : header (element name c ++ b) = header b := by
  have hname := mem_sectionNames h.listed
  have hlt := (isName_of_mem_sectionNames hname).not_mem (c := '<') (by simp)
  rw [header, h.stripped_section]
  exact erases_section hname (encloses_ofTag hlt h.closing) (stripped b)

theorem first?_section {n : Text} (hn : n ∈ readNames) (b : Text) :
    (Marks.ofTag n).first? (stripped (element name c ++ b)) =
      ((Marks.ofTag n).first? (stripped c)).or ((Marks.ofTag n).first? (stripped b)) := by
  have hread : ∀ n ∈ readNames, IsName n ∧ n ∈ sectionNames ∧ n ∉ foreignNames := by decide
  obtain ⟨hnname, hsection, hother⟩ := hread n hn
  have hname := isName_of_mem_sectionNames (mem_sectionNames h.listed)
  have hne : name ≠ n := ne_of_mem_of_not_mem h.listed hother
  rw [h.stripped_section, element, Marks.around_append, opening_ofTag, closing_ofTag,
    first?_of_isClear (avoids_opening hnname hname hne).opening,
    Markup.first?_append (isProper_ofTag n) (h.content.isSettled hsection),
    first?_of_isClear (avoids_closing hnname hname hne).opening]

theorem header_eq (b : Text) : header (a ++ (element name c ++ b)) = header (a ++ b) := by
  rw [h.before.header_append, h.before.header_append, h.header_section]

/-- The section is searched between what stands above it and what stands below it. -/
theorem first?_eq {n : Text} (hn : n ∈ readNames) (b : Text) :
    (Marks.ofTag n).first? (stripped (a ++ (element name c ++ b))) =
      ((Marks.ofTag n).first? (stripped a)).or
        (((Marks.ofTag n).first? (stripped c)).or ((Marks.ofTag n).first? (stripped b))) := by
  rw [h.before.first?_append (List.mem_append_left _ hn), h.first?_section hn]

end IsInsertion

/-- What a section lends: the first span of its content, if there is none above it. -/
def lent? (m : Marks) (above content : Text) : Option Text :=
  match m.first? (stripped above) with
  | some _ => none
  | none => m.first? (stripped content)

theorem or_eq_of_lent?_eq_none (h : lent? m a c = none) (found : Option Text) :
    (m.first? (stripped a)).or ((m.first? (stripped c)).or found) = (m.first? (stripped a)).or found := by
  unfold lent? at h
  cases ha : m.first? (stripped a) with
  | some _ => rfl
  | none =>
    rw [ha] at h
    rw [show m.first? (stripped c) = none from h, Option.none_or]

theorem or_eq_of_lent?_eq_some {inside : Text} (h : lent? m a c = some inside) (found : Option Text) :
    (m.first? (stripped a)).or ((m.first? (stripped c)).or found) = some inside := by
  unfold lent? at h
  cases ha : m.first? (stripped a) with
  | some _ => rw [ha] at h; cases h
  | none =>
    rw [ha] at h
    rw [show m.first? (stripped c) = some inside from h]
    rfl

/-- What is read of a project if it is lent a parent or managed dependencies. -/
def lend (own : Text) (parent managed : Option Text) (x : Bom) : Bom where
  group := parent.elim x.group fun p => (element? "groupId" own).or (element? "groupId" p)
  artifact := x.artifact
  version := parent.elim x.version fun p => (element? "version" own).or (element? "version" p)
  dependencies := managed.elim x.dependencies fun d => (dependencyMarks.insides d).filterMap dependency?

theorem lend_none (own : Text) : lend own none none = id := rfl

/-- With a further section a project file is read as before, but for what the section lends. -/
theorem parse?_insert (h : IsInsertion a name c) (b : Text) :
    parse? (a ++ (element name c ++ b)) = (parse? (a ++ b)).map
        (lend (header (a ++ b)) (lent? parentMarks a c) (lent? managementMarks a c)) ∧
      (lent? parentMarks a c = none → lent? managementMarks a c = none →
        parse? (a ++ (element name c ++ b)) = parse? (a ++ b)) := by
  have hparent : parentMarks.first? (stripped (a ++ b)) = _ := h.before.first?_append (by decide) b
  have hmanaged : managementMarks.first? (stripped (a ++ b)) = _ := h.before.first?_append (by decide) b
  have hparent' : parentMarks.first? (stripped (a ++ (element name c ++ b))) = _ :=
    h.first?_eq (by decide) b
  have hmanaged' : managementMarks.first? (stripped (a ++ (element name c ++ b))) = _ :=
    h.first?_eq (by decide) b
  rw [← parentMarks] at hparent hparent'
  rw [← managementMarks] at hmanaged hmanaged'
  have hlend : parse? (a ++ (element name c ++ b)) = (parse? (a ++ b)).map
      (lend (header (a ++ b)) (lent? parentMarks a c) (lent? managementMarks a c)) := by
    rw [parse?_eq, parse?_eq, described?, described?, h.header_eq, hparent, hmanaged, hparent', hmanaged',
      Option.map_map]
    cases hp : lent? parentMarks a c <;> cases hd : lent? managementMarks a c <;>
      simp [Function.comp_def, lend, hp, hd, or_eq_of_lent?_eq_none, or_eq_of_lent?_eq_some]
  refine ⟨hlend, fun hp hd => ?_⟩
  rw [hlend, hp, hd, lend_none, Option.map_id, id]

def managing (artifact : Text) : Text :=
  element "dependencyManagement" (element "dependencies"
    (element "dependency" (element "groupId" "g" ++ element "artifactId" artifact)))

def ownChildren : Text := element "artifactId" "a" ++ (managing "own" ++ "</project>")

theorem parse?_insert_build :
    IsInsertion "<project>" "build" (element "artifactId" "b") ∧
    parse? ("<project>" ++ (element "build" (element "artifactId" "b") ++ ownChildren)) =
      some { artifact := "a", dependencies := [{ group := "g", artifact := "own" }] } := by
  have h : IsInsertion "<project>" "build" (element "artifactId" "b") :=
    ⟨by decide, by decide +kernel, by decide +kernel, by decide +kernel⟩
  have hown := (parse?_insert h ownChildren).2 (by decide +kernel) (by decide +kernel)
  exact ⟨h, hown.trans (by decide +kernel)⟩

/-- Managed dependencies of a profile that stands first are taken for those of the project. -/
theorem parse?_insert_profile_ne :
    IsInsertion "<project>" "profiles" (element "profile" (managing "other")) ∧
    (parse? ("<project>" ++ ownChildren)).isSome = true ∧
    parse? ("<project>" ++ (element "profiles" (element "profile" (managing "other")) ++ ownChildren)) ≠
      parse? ("<project>" ++ ownChildren) :=
  ⟨⟨by decide, by decide +kernel, by decide +kernel, by decide +kernel⟩, by decide +kernel, by decide +kernel⟩

end ModuleRules.Bom
