import Mathlib.Tactic.MkIffOfInductiveProp
import ModuleRules.Proofs.Bom.Section

/-!
# Project files

A project file is a tree of elements with data and comments between them: the
elements of the project itself, its parent, the managed dependencies and
sections that describe other things. The trees come with their text, with the
conditions under which the text is one of a project file (`Project.IsSound`)
and with what they say of the project (`Project.bom?`). Sections that describe
other things are opaque here; they may contain sections of the other kinds.
-/

namespace ModuleRules.Pom

open Text Markup Bom

/-! ## The tree -/

/-- What stands between elements; a lone tag neither opens nor closes one. -/
inductive Filler where
  | data (t : Text)
  | comment (t : Text)
  | loneTag (t : Text)

abbrev Row (α : Type) := List (Filler ⊕ α)

structure Leaf where
  tag : Text
  value : Text

/-- The children of a managed dependency, apart from the elements for what is left out of it. -/
structure Managed where
  before : Row Leaf
  exclusions : Option (Row (Row Leaf))
  after : Row Leaf

structure Management where
  above : List Filler
  dependencies : Row Managed
  below : List Filler

inductive Child where
  | leaf (l : Leaf)
  | parent (r : Row Leaf)
  | management (m : Management)
  | foreign (name content : Text)

def Child.name : Child → Text
  | leaf l => l.tag
  | parent _ => "parent"
  | management _ => "dependencyManagement"
  | foreign name _ => name

structure Project where
  above : List Filler
  attributes : Text
  children : Row Child
  below : List Filler

def Row.items {α : Type} (r : Row α) : List α := r.filterMap Sum.getRight?

/-! ## Its text -/

def Filler.text : Filler → Text
  | data t => t
  | comment t => commentMarks.around t
  | loneTag t => tag t

def Filler.bare : Filler → Text
  | data t => t
  | comment _ => []
  | loneTag t => tag t

def Row.text {α : Type} (fill : Filler → Text) (item : α → Text) (r : Row α) : Text :=
  r.flatMap (Sum.elim fill item)

def Leaf.text (l : Leaf) : Text := element l.tag l.value

section
variable (fill : Filler → Text)

def leavesText (r : Row Leaf) : Text := r.text fill Leaf.text

def exclusionsText (r : Row (Row Leaf)) : Text :=
  element "exclusions" (r.text fill fun e => element "exclusion" (leavesText fill e))

def Managed.inside (d : Managed) : Text :=
  leavesText fill d.before ++ ((d.exclusions.elim [] (exclusionsText fill)) ++ leavesText fill d.after)

def Managed.text (d : Managed) : Text := element "dependency" (d.inside fill)

def Management.inside (m : Management) : Text :=
  m.above.flatMap fill ++
    (element "dependencies" (m.dependencies.text fill (Managed.text fill)) ++ m.below.flatMap fill)

def Child.inside : Child → Text
  | leaf l => l.value
  | parent r => leavesText fill r
  | management m => m.inside fill
  | foreign _ content => content

def Child.text (c : Child) : Text := element c.name (c.inside fill)

/-- The text of the project in which `child` stands for the children. -/
def Project.textWith (child : Child → Text) (p : Project) : Text :=
  p.above.flatMap fill ++ (tag ("project" ++ p.attributes) ++
    (p.children.text fill child ++ (tag ('/' :: "project") ++ p.below.flatMap fill)))

def Project.text (p : Project) : Text := p.textWith fill (Child.text fill)

end

/-! ## Well-formedness -/

/-- The names that an element of the project or of a dependency cannot have. -/
def reserved : List Text := "dependency" :: sectionNames

/-- The inside of the tag of an empty element or of an instruction. -/
@[mk_iff]
structure IsLone (t : Text) : Prop where
  chars : Lacks ['<', '>', '!'] t
  first : t.head? ≠ some '/'
  last : t.getLast? = some '/' ∨ t.getLast? = some '?'

def Filler.IsSound : Filler → Prop
  | data t => '<' ∉ t
  | comment t => ¬ ("-->" : Text) <:+: t
  | loneTag t => IsLone t

def Row.IsSound {α : Type} (P : α → Prop) (r : Row α) : Prop := ∀ x ∈ r, Sum.elim Filler.IsSound P x

@[mk_iff]
structure Leaf.IsSound (l : Leaf) : Prop where
  name : IsName l.tag
  plain : l.tag ∉ reserved
  value : '<' ∉ l.value

/-- What is left out of a dependency is given by groups and names, behind those of the dependency. -/
@[mk_iff]
structure Managed.IsSound (d : Managed) : Prop where
  before : d.before.IsSound Leaf.IsSound
  exclusions : ∀ e ∈ d.exclusions, Row.IsSound (Row.IsSound fun l =>
    Leaf.IsSound l ∧ l.tag ∈ (["groupId", "artifactId"] : List Text)) e ∧
    ∀ name ∈ (["groupId", "artifactId"] : List Text), ∃ l ∈ d.before.items, l.tag = name
  after : d.after.IsSound Leaf.IsSound

@[mk_iff]
structure Management.IsSound (m : Management) : Prop where
  above : ∀ x ∈ m.above, x.IsSound
  dependencies : m.dependencies.IsSound Managed.IsSound
  below : ∀ x ∈ m.below, x.IsSound

/-- A section that describes something else: of its content only some marks are known to be absent. -/
@[mk_iff]
structure IsForeign (name content : Text) : Prop where
  listed : name ∈ foreignNames
  closing : ¬ tag ('/' :: name) <:+: content
  comment : ¬ ("<!--" : Text) <:+: content
  read : ∀ n ∈ readNames, ¬ tag n <:+: content

def Child.IsSound : Child → Prop
  | leaf l => l.IsSound
  | parent r => r.IsSound Leaf.IsSound
  | management m => m.IsSound
  | foreign name content => IsForeign name content

@[mk_iff]
structure Project.IsSound (p : Project) : Prop where
  above : ∀ x ∈ p.above, x.IsSound
  attributes : Lacks ['<', '>', '!'] p.attributes
  children : p.children.IsSound Child.IsSound
  below : ∀ x ∈ p.below, x.IsSound

instance (t : Text) : Decidable (IsLone t) := decidable_of_iff' _ (isLone_iff t)

instance : DecidablePred Filler.IsSound
  | .data t => inferInstanceAs (Decidable ('<' ∉ t))
  | .comment t => inferInstanceAs (Decidable (¬ ("-->" : Text) <:+: t))
  | .loneTag t => inferInstanceAs (Decidable (IsLone t))

instance {α : Type} (P : α → Prop) [DecidablePred P] : DecidablePred (Row.IsSound P) := fun r =>
  have : DecidablePred (Sum.elim Filler.IsSound P)
    | .inl x => inferInstanceAs (Decidable x.IsSound)
    | .inr x => inferInstanceAs (Decidable (P x))
  inferInstanceAs (Decidable (∀ x ∈ r, _))

instance (l : Leaf) : Decidable l.IsSound := decidable_of_iff' _ (Leaf.isSound_iff l)

instance (d : Managed) : Decidable d.IsSound := decidable_of_iff' _ (Managed.isSound_iff d)

instance (m : Management) : Decidable m.IsSound := decidable_of_iff' _ (Management.isSound_iff m)

instance (name content : Text) : Decidable (IsForeign name content) :=
  decidable_of_iff' _ (isForeign_iff name content)

instance : DecidablePred Child.IsSound
  | .leaf l => inferInstanceAs (Decidable l.IsSound)
  | .parent r => inferInstanceAs (Decidable (r.IsSound Leaf.IsSound))
  | .management m => inferInstanceAs (Decidable m.IsSound)
  | .foreign name content => inferInstanceAs (Decidable (IsForeign name content))

instance (p : Project) : Decidable p.IsSound := decidable_of_iff' _ (Project.isSound_iff p)

/-! ## What the tree says -/

def Leaf.value? (name : Text) (l : Leaf) : Option Text := if l.tag = name then some l.value else none

def valueOf? (name : Text) (ls : List Leaf) : Option Text := (ls.findSome? (Leaf.value? name)).bind said?

def Managed.leaves (d : Managed) : List Leaf := d.before.items ++ d.after.items

def Managed.read? (d : Managed) : Option BomDependency := do
  let group ← valueOf? "groupId" d.leaves
  let artifact ← valueOf? "artifactId" d.leaves
  return ⟨group, artifact, valueOf? "version" d.leaves, valueOf? "type" d.leaves,
    valueOf? "scope" d.leaves, valueOf? "classifier" d.leaves⟩

def Child.leaf? : Child → Option Leaf
  | leaf l => some l
  | _ => none

def Child.parent? : Child → Option (Row Leaf)
  | parent r => some r
  | _ => none

def Child.management? : Child → Option Management
  | management m => some m
  | _ => none

def Project.leaves (p : Project) : List Leaf := p.children.items.filterMap Child.leaf?

def Project.parent (p : Project) : List Leaf := ((p.children.items.findSome? Child.parent?).map Row.items).getD []

def Project.managed (p : Project) : List Managed :=
  ((p.children.items.findSome? Child.management?).map (·.dependencies.items)).getD []

def Project.bom? (p : Project) : Option Bom :=
  (valueOf? "artifactId" p.leaves).map fun artifact =>
    ⟨(valueOf? "groupId" p.leaves).or (valueOf? "groupId" p.parent), artifact,
      (valueOf? "version" p.leaves).or (valueOf? "version" p.parent), p.managed.filterMap Managed.read?⟩

end ModuleRules.Pom
