import ModuleRules.Ascending
import ModuleRules.Rule.Basic

/-!
# Rule stores

A store holds a rule set for each module that was ever turned to, possibly an
empty one. It is kept ascending by identity, so two stores with the same sets
are equal, and its identities come out sorted.

A descriptor is amended by the set of its own module and then by the set of
`ALL:ALL`.
-/

namespace ModuleRules

structure RuleStore where
  sets : List (ModuleId × RuleSet) := []
  ascending : sets.Pairwise (·.1 < ·.1) := by exact List.Pairwise.nil

namespace RuleStore

instance : Inhabited RuleStore := ⟨{}⟩

def empty : RuleStore := {}

/-- Changes the set of a module, from the empty one when there is none yet. -/
def alter (id : ModuleId) (f : RuleSet → RuleSet) (s : RuleStore) : RuleStore :=
  ⟨Ascending.alter id (fun rules => f (rules.getD [])) s.sets,
    Ascending.pairwise_alter ModuleId.lt_trans s.ascending⟩

/-- Makes sure that the module has a set. -/
def touch (id : ModuleId) (s : RuleStore) : RuleStore := s.alter id fun rules => rules

def push (id : ModuleId) (r : Rule) (s : RuleStore) : RuleStore :=
  s.alter id fun rules => rules ++ [r]

def get? (s : RuleStore) (id : ModuleId) : Option RuleSet := Ascending.find? id s.sets

theorem get?_alter (s : RuleStore) (id i : ModuleId) (f : RuleSet → RuleSet) :
    (s.alter id f).get? i = if i = id then some (f ((s.get? id).getD [])) else s.get? i :=
  Ascending.find?_alter ModuleId.lt_irrefl ModuleId.lt_trans ModuleId.eq_of_not_lt i s.ascending

theorem get?_touch (s : RuleStore) (id i : ModuleId) :
    (s.touch id).get? i = if i = id then some ((s.get? id).getD []) else s.get? i :=
  s.get?_alter id i _

theorem get?_push (s : RuleStore) (id i : ModuleId) (r : Rule) :
    (s.push id r).get? i = if i = id then some ((s.get? id).getD [] ++ [r]) else s.get? i :=
  s.get?_alter id i _

def identities (s : RuleStore) : List ModuleId := s.sets.map (·.1)

def size (s : RuleStore) : Nat := s.sets.length

def isEmpty (s : RuleStore) : Bool := s.sets.isEmpty

def ruleCount (s : RuleStore) : Nat := (s.sets.map (·.2.length)).foldr (· + ·) 0

/-! ## Amending -/

/-- The sets that apply to a module, in this order. For `ALL:ALL` itself it is one set twice. -/
def setsFor (s : RuleStore) (id : ModuleId) : List (ModuleId × RuleSet) :=
  [id, ModuleId.wildcard].filterMap fun key => (s.get? key).map (key, ·)

def rulesFor (s : RuleStore) (id : ModuleId) : RuleSet := (s.setsFor id).flatMap (·.2)

def amend (s : RuleStore) (d : Descriptor) : Descriptor × List Change :=
  RuleSet.apply (s.rulesFor d.identity) d

end RuleStore

end ModuleRules
