import ModuleRules.Proofs.Bom.Pom

/-!
# What the reader finds in a project file

The reader never sees the tree: it takes out comments and sections and looks
for marks in the text. Comments leave the rest of the text as it is, and so do
sections (`Erases`). Of the elements that a mark could begin in, the others
avoid it (`Avoids`), so that the reader finds what the tree says
(`parse?_text`).
-/

namespace ModuleRules.Pom

open Text Markup Bom

section
variable {α : Type} {P : α → Prop} {f g : α → Text} {r : Row α} {name t : Text}

theorem Row.IsSound.of_mem_items (h : r.IsSound P) {x : α} (hx : x ∈ r.items) : P x := by
  obtain ⟨y, hy, hyx⟩ := List.mem_filterMap.1 hx
  obtain ⟨rfl⟩ := Sum.getRight?_eq_some_iff.1 hyx
  exact h _ hy

theorem filterMap_row {β : Type} (pick : α → Option β) (r : Row α) :
    r.filterMap (Sum.elim (fun _ => none) pick) = r.items.filterMap pick := by
  rw [Row.items, List.filterMap_filterMap]
  exact List.filterMap_congr fun x _ => by cases x <;> rfl

theorem findSome?_row {β : Type} (pick : α → Option β) (r : Row α) :
    r.findSome? (Sum.elim (fun _ => none) pick) = r.items.findSome? pick := by
  rw [← List.head?_filterMap, filterMap_row, List.head?_filterMap]

theorem isName_of_mem : ∀ {name : Text}, name ∈ reserved → IsName name := by
  decide

theorem Project.IsSound.lacks_opening {p : Project} (h : p.IsSound) :
    Lacks ['<', '>', '!'] ("project" ++ p.attributes) :=
  .append (by decide) h.attributes

/-! ## Comments -/

theorem erases_filler : ∀ {x : Filler}, x.IsSound → Erases [commentMarks] x.text x.bare
  | .data t, h => erases_of_no_comment (isClear_of_not_mem h)
  | .comment _, h => erases_comment h
  | .loneTag _, h => by
    have hchars := IsLone.chars h
    exact erases_of_no_comment (isClear_comment_tag (hchars.not_mem (by simp)) (hchars.not_mem (by simp)))

theorem Row.IsSound.erases (h : r.IsSound P) (hf : ∀ x, P x → Erases [commentMarks] (f x) (g x)) :
    Erases [commentMarks] (r.text Filler.text f) (r.text Filler.bare g) := by
  refine .flatMap fun x hx => ?_
  cases x with
  | inl x => exact erases_filler (h _ hx)
  | inr x => exact hf x (h _ hx)

theorem Leaf.IsSound.erases {l : Leaf} (h : l.IsSound) : Erases [commentMarks] l.text l.text :=
  erases_comments_element h.name (erases_of_no_comment (isClear_of_not_mem h.value))

theorem Row.IsSound.erases_leaves {P : Leaf → Prop} {r : Row Leaf} (h : r.IsSound P)
    (hP : ∀ l, P l → l.IsSound) :
    Erases [commentMarks] (leavesText Filler.text r) (leavesText Filler.bare r) :=
  h.erases fun l hl => (hP l hl).erases

theorem erases_fillers {xs : List Filler} (h : ∀ x ∈ xs, x.IsSound) :
    Erases [commentMarks] (xs.flatMap Filler.text) (xs.flatMap Filler.bare) :=
  .flatMap fun x hx => erases_filler (h x hx)

theorem Managed.IsSound.erases {d : Managed} (h : d.IsSound) :
    Erases [commentMarks] (d.text Filler.text) (d.text Filler.bare) := by
  have hexclusions : Erases [commentMarks] (d.exclusions.elim [] (exclusionsText Filler.text))
      (d.exclusions.elim [] (exclusionsText Filler.bare)) := by
    cases he : d.exclusions with
    | none => exact .nil _
    | some e =>
      have hrows := (h.exclusions e he).1
      refine erases_comments_element (by decide) (hrows.erases fun r hr => ?_)
      exact erases_comments_element (by decide) (hr.erases_leaves fun l hl => hl.1)
  refine erases_comments_element (by decide) ?_
  exact (h.before.erases_leaves fun _ => id).append
    (hexclusions.append (h.after.erases_leaves fun _ => id))

theorem Management.IsSound.erases {m : Management} (h : m.IsSound) :
    Erases [commentMarks] (m.inside Filler.text) (m.inside Filler.bare) := by
  have hdependencies : Erases [commentMarks] (m.dependencies.text Filler.text (Managed.text Filler.text))
      (m.dependencies.text Filler.bare (Managed.text Filler.bare)) :=
    h.dependencies.erases fun d hd => hd.erases
  exact (erases_fillers h.above).append
    ((erases_comments_element (by decide) hdependencies).append (erases_fillers h.below))

theorem Child.IsSound.isName : ∀ {c : Child}, c.IsSound → IsName c.name
  | .leaf _, h => Leaf.IsSound.name h
  | .parent _, _ => (by decide : IsName ("parent" : Text))
  | .management _, _ => (by decide : IsName ("dependencyManagement" : Text))
  | .foreign _ _, h => isName_of_mem_sectionNames (mem_sectionNames (IsForeign.listed h))

theorem Child.IsSound.erases : ∀ {c : Child}, c.IsSound →
    Erases [commentMarks] (c.text Filler.text) (c.text Filler.bare)
  | .leaf _, h => Leaf.IsSound.erases h
  | .parent r, h =>
    erases_comments_element (isName (c := .parent r) h) (Row.IsSound.erases_leaves h fun _ => id)
  | .management m, h =>
    erases_comments_element (isName (c := .management m) h) (Management.IsSound.erases h)
  | .foreign name content, h => by
    have hname := isName_of_mem_sectionNames (mem_sectionNames h.listed)
    exact erases_of_no_comment (isClear_element (by decide) (isClear_comment_opening hname)
      (isClear_comment_closing hname) h.comment)

theorem Project.IsSound.erases {p : Project} (h : p.IsSound) :
    Erases [commentMarks] (p.text Filler.text) (p.text Filler.bare) := by
  have hproject : IsName ("project" : Text) := by decide
  have hopening := erases_of_no_comment (isClear_comment_tag (h.lacks_opening.not_mem (by simp))
    (h.lacks_opening.not_mem (by simp)))
  have hclosing := erases_of_no_comment (isClear_comment_closing hproject)
  exact (erases_fillers h.above).append (hopening.append
    ((h.children.erases fun _ hc => hc.erases).append (hclosing.append (erases_fillers h.below))))

/-! ## Tags that a text avoids -/

theorem avoids_filler (hname : IsName name) : ∀ {x : Filler}, x.IsSound → Avoids name x.bare
  | .data _, h => avoids_of_not_mem name h
  | .comment _, _ => avoids_of_not_mem name List.not_mem_nil
  | .loneTag t, h => by
    have hchars := IsLone.chars h
    refine avoids_tag hname (hchars.not_mem (by simp)) (hchars.not_mem (by simp)) ?_ ?_
    · rintro rfl
      rcases IsLone.last h with hlast | hlast
      · exact hname.not_mem (by simp) (List.mem_of_getLast? hlast)
      · exact hname.not_mem (by simp) (List.mem_of_getLast? hlast)
    · rintro rfl
      exact IsLone.first h rfl

theorem avoids_fillers (hname : IsName name) {xs : List Filler} (h : ∀ x ∈ xs, x.IsSound) :
    Avoids name (xs.flatMap Filler.bare) :=
  ⟨isClear_flatMap fun x hx => (avoids_filler hname (h x hx)).opening,
    isClear_flatMap fun x hx => (avoids_filler hname (h x hx)).closing⟩

theorem Row.IsSound.avoids (h : r.IsSound P) (hname : IsName name)
    (hf : ∀ x, P x → Avoids name (f x)) : Avoids name (r.text Filler.bare f) := by
  have hpiece : ∀ x ∈ r, Avoids name (Sum.elim Filler.bare f x)
    | .inl x, hx => avoids_filler hname (h _ hx)
    | .inr x, hx => hf x (h _ hx)
  exact ⟨isClear_flatMap fun x hx => (hpiece x hx).opening,
    isClear_flatMap fun x hx => (hpiece x hx).closing⟩

theorem Leaf.IsSound.avoids {l : Leaf} (h : l.IsSound) (hname : IsName name) (hne : l.tag ≠ name) :
    Avoids name l.text :=
  (avoids_of_not_mem name h.value).element hname h.name hne

theorem Row.IsSound.avoids_leaves {P : Leaf → Prop} {r : Row Leaf} (h : r.IsSound P)
    (hname : IsName name) (hP : ∀ l, P l → l.IsSound ∧ l.tag ≠ name) :
    Avoids name (leavesText Filler.bare r) :=
  h.avoids hname fun l hl => (hP l hl).1.avoids hname (hP l hl).2

theorem Leaf.IsSound.tag_ne {l : Leaf} (h : l.IsSound) (hname : name ∈ reserved) : l.tag ≠ name := by
  rintro rfl
  exact h.plain hname

theorem Managed.IsSound.avoids_exclusions {d : Managed} (h : d.IsSound) (hname : IsName name)
    (hne : name ∉ (["exclusions", "exclusion"] : List Text))
    (hplain : name ∉ (["groupId", "artifactId"] : List Text)) :
    Avoids name (d.exclusions.elim [] (exclusionsText Filler.bare)) := by
  have hexclusions : ("exclusions" : Text) ≠ name := fun heq => hne (heq ▸ by decide)
  have hexclusion : ("exclusion" : Text) ≠ name := fun heq => hne (heq ▸ by decide)
  cases he : d.exclusions with
  | none => exact avoids_of_not_mem name List.not_mem_nil
  | some e =>
    have hrows := (h.exclusions e he).1
    refine (hrows.avoids hname fun r hr => ?_).element hname (by decide) hexclusions
    refine (hr.avoids_leaves hname fun l hl => ⟨hl.1, ?_⟩).element hname (by decide) hexclusion
    rintro rfl
    exact hplain hl.2

theorem Managed.IsSound.avoids_inside {d : Managed} (h : d.IsSound) (hname : name ∈ reserved) :
    Avoids name (d.inside Filler.bare) := by
  have hother : ∀ n ∈ reserved, n ∉ (["exclusions", "exclusion"] : List Text) ∧
      n ∉ (["groupId", "artifactId"] : List Text) := by
    decide
  have hleaves : ∀ l : Leaf, l.IsSound → l.IsSound ∧ l.tag ≠ name := fun l hl => ⟨hl, hl.tag_ne hname⟩
  have hname' := isName_of_mem hname
  exact (h.before.avoids_leaves hname' hleaves).append
    ((h.avoids_exclusions hname' (hother name hname).1 (hother name hname).2).append
      (h.after.avoids_leaves hname' hleaves))

theorem Management.IsSound.avoids_inside {m : Management} (h : m.IsSound) (hname : name ∈ reserved)
    (hne : ("dependency" : Text) ≠ name) (hne' : ("dependencies" : Text) ≠ name) :
    Avoids name (m.inside Filler.bare) := by
  have hname' := isName_of_mem hname
  have hdependencies : Avoids name (m.dependencies.text Filler.bare (Managed.text Filler.bare)) :=
    h.dependencies.avoids hname' fun d hd => (hd.avoids_inside hname).element hname' (by decide) hne
  exact (avoids_fillers hname' h.above).append
    ((hdependencies.element hname' (by decide) hne').append (avoids_fillers hname' h.below))

/-! ## What the marks find -/

/-- In a row the elements of a name are found, if all others avoid it. -/
theorem Row.IsSound.reads {inside? : α → Option Text} (h : r.IsSound P) (hname : IsName name)
    (hnone : ∀ x, P x → inside? x = none → IsClear (tag name) (f x))
    (hsome : ∀ x, P x → ∀ i, inside? x = some i → f x = element name i ∧ (Marks.ofTag name).Encloses i) :
    (Marks.ofTag name).Reads (Sum.elim Filler.bare f) (Sum.elim (fun _ => none) inside?) r where
  clear
    | .inl _, hx, _ => (avoids_filler hname (h _ hx)).opening
    | .inr x, hx, hnot => hnone x (h _ hx) hnot
  span
    | .inr x, hx, i, hi => hsome x (h _ hx) i hi

section
variable {l : Leaf} (h : l.IsSound)
include h

theorem Leaf.IsSound.encloses : (Marks.ofTag l.tag).Encloses l.value :=
  (avoids_of_not_mem _ h.value).encloses

theorem Leaf.IsSound.isClear_of_value? (hname : IsName name) (hvalue : l.value? name = none) :
    IsClear (Markup.tag name) l.text := by
  refine (h.avoids hname fun heq => ?_).opening
  simp [Leaf.value?, heq] at hvalue

theorem Leaf.IsSound.span_of_value? (hvalue : l.value? name = some t) :
    l.text = element name t ∧ (Marks.ofTag name).Encloses t := by
  obtain ⟨rfl, rfl⟩ : l.tag = name ∧ l.value = t := by simpa [Leaf.value?] using hvalue
  exact ⟨rfl, h.encloses⟩

end

theorem Row.IsSound.first?_leaves {r : Row Leaf} (h : r.IsSound Leaf.IsSound) (hname : IsName name)
    (rest : Text) : (Marks.ofTag name).first? (leavesText Filler.bare r ++ rest) =
      (r.items.findSome? (Leaf.value? name)).or ((Marks.ofTag name).first? rest) := by
  have hreads := h.reads hname (fun l hl => hl.isClear_of_value? hname) fun l hl i => hl.span_of_value?
  rw [leavesText, Row.text, hreads.first? (isProper_ofTag name), findSome?_row]

theorem Row.IsSound.first?_only_leaves {r : Row Leaf} (h : r.IsSound Leaf.IsSound) (hname : IsName name) :
    (Marks.ofTag name).first? (leavesText Filler.bare r) = r.items.findSome? (Leaf.value? name) := by
  have hfirst := h.first?_leaves hname []
  rwa [List.append_nil, first?_eq_none (isProper_ofTag name) (isClear_nil _), Option.or_none] at hfirst

theorem Row.IsSound.element?_leaves {r : Row Leaf} (h : r.IsSound Leaf.IsSound) (hname : IsName name) :
    element? name (leavesText Filler.bare r) = valueOf? name r.items := by
  rw [element?_eq, h.first?_only_leaves hname]
  rfl

theorem Managed.IsSound.element?_inside {d : Managed} (h : d.IsSound) (hname : IsName name)
    (hne : name ∉ (["exclusions", "exclusion"] : List Text)) :
    element? name (d.inside Filler.bare) = valueOf? name d.leaves := by
  have hskip : (d.before.items.findSome? (Leaf.value? name)).or ((Marks.ofTag name).first?
      (d.exclusions.elim [] (exclusionsText Filler.bare) ++ leavesText Filler.bare d.after)) =
      (d.before.items.findSome? (Leaf.value? name)).or
        ((Marks.ofTag name).first? (leavesText Filler.bare d.after)) := by
    -- the names of what is left out occur before it too, and all others do not occur in it
    by_cases hplain : name ∈ (["groupId", "artifactId"] : List Text)
    · cases he : d.exclusions with
      | none => rfl
      | some e =>
        obtain ⟨l, hl, hlname⟩ := (h.exclusions e he).2 name hplain
        have hsome : (d.before.items.findSome? (Leaf.value? name)).isSome = true :=
          List.findSome?_isSome_iff.2 ⟨l, hl, by simp [Leaf.value?, hlname]⟩
        rw [Option.or_of_isSome hsome, Option.or_of_isSome hsome]
    · rw [first?_of_isClear (h.avoids_exclusions hname hne hplain).opening]
  rw [element?_eq, Managed.inside, h.before.first?_leaves hname, hskip, h.after.first?_only_leaves hname,
    valueOf?, Managed.leaves, List.findSome?_append]

theorem Managed.IsSound.dependency? {d : Managed} (h : d.IsSound) :
    Bom.dependency? (d.inside Filler.bare) = d.read? := by
  unfold Bom.dependency? Managed.read?
  rw [h.element?_inside (by decide) (by decide), h.element?_inside (by decide) (by decide),
    h.element?_inside (by decide) (by decide), h.element?_inside (by decide) (by decide),
    h.element?_inside (by decide) (by decide), h.element?_inside (by decide) (by decide)]

theorem Management.IsSound.insides {m : Management} (h : m.IsSound) :
    dependencyMarks.insides (m.inside Filler.bare) =
      m.dependencies.items.map (Managed.inside Filler.bare) := by
  have hname : IsName ("dependency" : Text) := by decide
  have hdependencies : IsName ("dependencies" : Text) := by decide
  have hproper := isProper_ofTag "dependency"
  have hreads : dependencyMarks.Reads (Sum.elim Filler.bare (Managed.text Filler.bare))
      (Sum.elim (fun _ => none) (some ∘ Managed.inside Filler.bare)) m.dependencies := by
    refine h.dependencies.reads hname (fun d _ hnot => by cases hnot) fun d hd i hi => ?_
    obtain rfl := Option.some.inj hi
    exact ⟨rfl, (hd.avoids_inside (by decide)).encloses⟩
  have hskip : ∀ {t : Text}, Avoids "dependency" t → ∀ rest,
      dependencyMarks.insides (t ++ rest) = dependencyMarks.insides rest :=
    fun ht rest => insides_of_isClear hproper ht.opening rest
  have hend : dependencyMarks.insides (tag ('/' :: "dependencies".toList) ++
      m.below.flatMap Filler.bare) = [] := by
    rw [hskip (avoids_closing hname hdependencies (by decide)), ← List.append_nil (m.below.flatMap _),
      hskip (avoids_fillers hname h.below)]
    exact insides_of_next?_eq_none (next?_nil hproper)
  rw [Management.inside, hskip (avoids_fillers hname h.above), element, Marks.around_append, opening_ofTag,
    closing_ofTag, hskip (avoids_opening hname hdependencies (by decide)), Row.text,
    hreads.insides hproper, hend, List.append_nil, filterMap_row, List.filterMap_eq_map]

end

/-! ## The project -/

section
variable {p : Project} {name : Text} {f : Child → Text} {inside? : Child → Option Text}

theorem Project.IsSound.avoids_opening (h : p.IsSound) (hname : IsName name)
    (hproject : ¬ ("project" : Text) <+: name) : Avoids name (tag ("project" ++ p.attributes)) := by
  refine avoids_tag hname (h.lacks_opening.not_mem (by simp)) (h.lacks_opening.not_mem (by simp)) ?_ ?_
  · rintro rfl
    exact hproject (List.prefix_append _ _)
  · intro heq
    exact absurd (List.head_eq_of_cons_eq heq) (by decide)

theorem Project.IsSound.avoids_end (h : p.IsSound) (hname : IsName name)
    (hproject : ¬ ("project" : Text) <+: name) :
    Avoids name (tag ('/' :: "project") ++ p.below.flatMap Filler.bare) := by
  have hne : ("project" : Text) ≠ name := by
    rintro rfl
    exact hproject List.prefix_rfl
  exact (avoids_closing hname (by decide) hne).append (avoids_fillers hname h.below)

theorem Project.IsSound.first? (h : p.IsSound) (hname : IsName name)
    (hproject : ¬ ("project" : Text) <+: name)
    (hnone : ∀ c : Child, c.IsSound → inside? c = none → IsClear (tag name) (f c))
    (hsome : ∀ c : Child, c.IsSound → ∀ i, inside? c = some i →
      f c = element name i ∧ (Marks.ofTag name).Encloses i) :
    (Marks.ofTag name).first? (p.textWith Filler.bare f) = p.children.items.findSome? inside? := by
  have hreads := h.children.reads hname hnone hsome
  have hproper := isProper_ofTag name
  have hend := first?_eq_none hproper (h.avoids_end hname hproject).opening
  rw [Project.textWith, first?_of_isClear (avoids_fillers hname h.above).opening,
    first?_of_isClear (h.avoids_opening hname hproject).opening, Row.text, hreads.first? hproper, hend,
    Option.or_none, findSome?_row]

theorem IsForeign.isClear {content n : Text} (h : IsForeign name content) (hn : n ∈ readNames)
    (hne : name ≠ n) : IsClear (tag n) (element name content) := by
  have hread : ∀ n ∈ readNames, IsName n := by decide
  have hname := hread n hn
  have hname' := isName_of_mem_sectionNames (mem_sectionNames h.listed)
  have hlt := hname.not_mem (c := '<') (by simp)
  exact isClear_element (by simp [hlt]) (avoids_opening hname hname' hne).opening
    (avoids_closing hname hname' hne).opening (h.read n hn)

theorem Child.IsSound.isClear {n : Text} (hn : n ∈ readNames) : ∀ {c : Child}, c.IsSound → c.name ≠ n →
    IsClear (tag n) (c.text Filler.bare) := by
  have hread : ∀ n ∈ readNames, n ∈ reserved ∧ ("dependency" : Text) ≠ n ∧ ("dependencies" : Text) ≠ n := by
    decide
  obtain ⟨hreserved, hdependency, hdependencies⟩ := hread n hn
  have hname := isName_of_mem hreserved
  intro c h hne
  cases c with
  | leaf l => exact (Leaf.IsSound.avoids h hname hne).opening
  | parent r =>
    have hleaves := Row.IsSound.avoids_leaves h hname fun l hl => ⟨hl, hl.tag_ne hreserved⟩
    exact (hleaves.element hname (isName h) hne).opening
  | management m =>
    have hinside := Management.IsSound.avoids_inside h hreserved hdependency hdependencies
    exact (hinside.element hname (isName h) hne).opening
  | foreign name content => exact IsForeign.isClear h hn hne

theorem Child.IsSound.encloses : ∀ {c : Child}, c.IsSound → (Marks.ofTag c.name).Encloses (c.inside Filler.bare)
  | .leaf _, h => Leaf.IsSound.encloses h
  | .parent _, h => by
    have hname : IsName ("parent" : Text) := by decide
    exact (Row.IsSound.avoids_leaves h hname fun l hl => ⟨hl, hl.tag_ne (by decide)⟩).encloses
  | .management m, h => by
    have havoids : Avoids "dependencyManagement" (m.inside Filler.bare) :=
      Management.IsSound.avoids_inside h (by decide) (by decide) (by decide)
    exact havoids.encloses
  | .foreign _ _, h => by
    have hname := isName_of_mem_sectionNames (mem_sectionNames (IsForeign.listed h))
    exact encloses_ofTag (hname.not_mem (by simp)) (IsForeign.closing h)

theorem Project.IsSound.first?_parent (h : p.IsSound) : parentMarks.first? (p.text Filler.bare) =
    (p.children.items.findSome? Child.parent?).map (leavesText Filler.bare) := by
  rw [List.map_findSome?]
  refine h.first? (by decide) (by decide) (fun c hc hnot => hc.isClear (by decide) ?_) fun c hc i hi => ?_
  · cases c with
    | leaf l => exact Leaf.IsSound.tag_ne hc (by decide)
    | parent r => cases hnot
    | management m => exact (by decide : ("dependencyManagement" : Text) ≠ "parent")
    | foreign name content => exact ne_of_mem_of_not_mem (IsForeign.listed hc) (by decide)
  · cases c with
    | parent r =>
      obtain rfl := Option.some.inj hi
      exact ⟨rfl, hc.encloses⟩
    | _ => cases hi

theorem Project.IsSound.first?_management (h : p.IsSound) : managementMarks.first? (p.text Filler.bare) =
    (p.children.items.findSome? Child.management?).map (Management.inside Filler.bare) := by
  rw [List.map_findSome?]
  refine h.first? (by decide) (by decide) (fun c hc hnot => hc.isClear (by decide) ?_) fun c hc i hi => ?_
  · cases c with
    | leaf l => exact Leaf.IsSound.tag_ne hc (by decide)
    | parent r => exact (by decide : ("parent" : Text) ≠ "dependencyManagement")
    | management m => cases hnot
    | foreign name content => exact ne_of_mem_of_not_mem (IsForeign.listed hc) (by decide)
  · cases c with
    | management m =>
      obtain rfl := Option.some.inj hi
      exact ⟨rfl, hc.encloses⟩
    | _ => cases hi

def Child.header : Child → Text
  | leaf l => l.text
  | _ => []

theorem Child.IsSound.erases_sections : ∀ {c : Child}, c.IsSound →
    Erases sectionMarks (c.text Filler.bare) c.header
  | .leaf _, h => erases_of_avoids fun n hn =>
    Leaf.IsSound.avoids h (isName_of_mem_sectionNames hn) (Leaf.IsSound.tag_ne h (List.mem_cons_of_mem _ hn))
  | .parent _, h =>
    erases_section (by decide : ("parent" : Text) ∈ sectionNames) (Child.IsSound.encloses h)
  | .management _, h =>
    erases_section (by decide : ("dependencyManagement" : Text) ∈ sectionNames) (Child.IsSound.encloses h)
  | .foreign _ _, h => erases_section (mem_sectionNames (IsForeign.listed h)) (Child.IsSound.encloses h)

theorem Project.IsSound.erases_sections (h : p.IsSound) :
    Erases sectionMarks (p.text Filler.bare) (p.textWith Filler.bare Child.header) := by
  have hname := fun {n : Text} (hn : n ∈ sectionNames) => isName_of_mem_sectionNames hn
  have hproject : ∀ n ∈ sectionNames, ¬ ("project" : Text) <+: n := by decide
  have hrow : Erases sectionMarks (p.children.text Filler.bare (Child.text Filler.bare))
      (p.children.text Filler.bare Child.header) := by
    refine .flatMap fun x hx => ?_
    cases x with
    | inl x => exact erases_of_avoids fun n hn => avoids_filler (hname hn) (h.children _ hx)
    | inr c => exact Child.IsSound.erases_sections (h.children _ hx)
  have habove := erases_of_avoids fun n hn => avoids_fillers (hname hn) h.above
  have hopening := erases_of_avoids fun n hn => h.avoids_opening (hname hn) (hproject n hn)
  have hend := erases_of_avoids fun n hn => h.avoids_end (hname hn) (hproject n hn)
  exact habove.append (hopening.append (hrow.append hend))

theorem Project.IsSound.element?_header (h : p.IsSound) (hname : IsName name)
    (hproject : ¬ ("project" : Text) <+: name) :
    element? name (p.textWith Filler.bare Child.header) = valueOf? name p.leaves := by
  have hfirst : (Marks.ofTag name).first? (p.textWith Filler.bare Child.header) =
      p.children.items.findSome? fun c => c.leaf?.bind (Leaf.value? name) := by
    refine h.first? hname hproject (fun c hc hnot => ?_) fun c hc i hi => ?_
    · cases c with
      | leaf l => exact Leaf.IsSound.isClear_of_value? hc hname hnot
      | _ => exact isClear_nil _
    · cases c with
      | leaf l => exact Leaf.IsSound.span_of_value? hc hi
      | _ => cases hi
  rw [element?_eq, hfirst, valueOf?, Project.leaves, ← List.head?_filterMap, ← List.head?_filterMap,
    List.filterMap_filterMap]

theorem element?_nil (name : Text) : element? name [] = none := by
  rw [element?_eq, first?_eq_none (isProper_ofTag name) (isClear_nil _)]
  rfl

theorem Project.IsSound.of_parent? (h : p.IsSound) {r : Row Leaf}
    (hr : p.children.items.findSome? Child.parent? = some r) : r.IsSound Leaf.IsSound := by
  obtain ⟨c, hc, hcr⟩ := List.exists_of_findSome?_eq_some hr
  cases c with
  | parent r' =>
    obtain rfl := Option.some.inj hcr
    exact h.children.of_mem_items hc
  | _ => cases hcr

theorem Project.IsSound.of_management? (h : p.IsSound) {m : Management}
    (hm : p.children.items.findSome? Child.management? = some m) : m.IsSound := by
  obtain ⟨c, hc, hcm⟩ := List.exists_of_findSome?_eq_some hm
  cases c with
  | management m' =>
    obtain rfl := Option.some.inj hcm
    exact h.children.of_mem_items hc
  | _ => cases hcm

theorem Project.IsSound.element?_parent (h : p.IsSound) (hname : IsName name) :
    element? name ((parentMarks.first? (p.text Filler.bare)).getD []) = valueOf? name p.parent := by
  rw [h.first?_parent, Project.parent]
  cases hr : p.children.items.findSome? Child.parent? with
  | none => exact element?_nil name
  | some r => exact (h.of_parent? hr).element?_leaves hname

theorem Project.IsSound.dependencies (h : p.IsSound) :
    (dependencyMarks.insides ((managementMarks.first? (p.text Filler.bare)).getD [])).filterMap dependency? =
      p.managed.filterMap Managed.read? := by
  rw [h.first?_management, Project.managed]
  cases hm : p.children.items.findSome? Child.management? with
  | none => rfl
  | some m =>
    have hsound := h.of_management? hm
    simp only [Option.map_some, Option.getD_some]
    rw [hsound.insides, List.filterMap_map]
    exact List.filterMap_congr fun d hd => (hsound.dependencies.of_mem_items hd).dependency?

theorem parse?_text (h : p.IsSound) : parse? (p.text Filler.text) = p.bom? := by
  have hparent := fun {name : Text} (hname : IsName name) => h.element?_parent hname
  have hdependencies := h.dependencies
  unfold Marks.first? at hparent hdependencies
  simp only [parse?, h.erases.remove_eq, h.erases_sections.remove_eq, Project.bom?]
  rw [h.element?_header (by decide) (by decide), h.element?_header (by decide) (by decide),
    h.element?_header (by decide) (by decide), hparent (by decide), hparent (by decide), hdependencies]

end

/-- A comment, a section with other sections in it and what is left out of a
dependency all hold elements named like those that are read. -/
def fractionBom : Project where
  above := [.loneTag "?xml version=\"1.0\"?", .data "\n"]
  attributes := " xml:space=\"preserve\""
  children :=
    [.inl (.comment "<artifactId>commented</artifactId>"),
      .inr (.foreign "profiles" "<profile><build><artifactId>other</artifactId></build></profile>"),
      .inl (.data "\n"),
      .inr (.leaf ⟨"artifactId", " fraction-bom\n"⟩),
      .inr (.management
        { above := [.comment "imported", .data "\n"]
          dependencies :=
            [.inr
              { before := [.inr ⟨"artifactId", "lib"⟩, .inr ⟨"groupId", "org.example"⟩]
                exclusions := some [.inr [.inr ⟨"groupId", "org.other"⟩, .inr ⟨"artifactId", "api"⟩]]
                after := [.inl (.data " "), .inr ⟨"version", "2.0"⟩] }]
          below := [] }),
      .inr (.parent [.inr ⟨"groupId", "org.parent"⟩, .inr ⟨"version", "7"⟩, .inl (.loneTag "relativePath/")])]
  below := [.data "\n"]

theorem parse?_fractionBom : fractionBom.IsSound ∧ parse? (fractionBom.text Filler.text) = some
    { group := some "org.parent", artifact := "fraction-bom", version := some "7"
      dependencies := [{ group := "org.example", artifact := "lib", version := some "2.0" }] } := by
  have hsound : fractionBom.IsSound := by decide +kernel
  exact ⟨hsound, (parse?_text hsound).trans (by decide +kernel)⟩

end ModuleRules.Pom
