import ModuleRules.Proofs.File.Tree
import ModuleRules.Proofs.Text.Order

/-!
# Paths by their components

Paths are put in order by their components, of which the root and dots come
before names. A name that is joined to a path is one component more
(`components_join`) and one step further (`follow_join_eq_ok`), and paths with the
same components lead to the same place if both can be followed.
-/

namespace ModuleRules

namespace Path

/-! ## Order -/

namespace Component

def rank : Component → Nat
  | root => 0
  | current => 1
  | parent => 2
  | name _ => 3

/-- The root comes first, then a dot, two dots and the names, which are in order as texts. -/
def IsBefore : Component → Component → Prop
  | name s, name t => s < t
  | c, d => c.rank < d.rank

instance : LT Component := ⟨IsBefore⟩

theorem key_lt_iff {c d : Component} : c.key < d.key ↔ c < d := by
  show c.key < d.key ↔ IsBefore c d
  cases c <;> cases d <;> simp [key, IsBefore, rank, List.cons_lt_cons_iff]

theorem key_injective : Function.Injective Component.key := by
  intro c d h
  cases c <;> cases d <;> simp_all [key]

end Component

/-- **The order of paths is that of their components.** -/
theorem key_lt_key_iff {p q : Text} : key p < key q ↔ components p < components q :=
  map_lt_map_iff Component.key_lt_iff Component.key_injective

instance : Std.Irrefl (α := List Component) (· < ·) where
  irrefl cs h := List.lt_irrefl (cs.map Component.key)
    ((map_lt_map_iff Component.key_lt_iff Component.key_injective).2 h)

instance : Std.Antisymm (α := List Component) (· < ·) where
  antisymm cs ds h h' := by
    have hlt := (map_lt_map_iff Component.key_lt_iff Component.key_injective).2 h
    have hlt' := (map_lt_map_iff Component.key_lt_iff Component.key_injective).2 h'
    exact absurd (List.lt_trans hlt hlt') (List.lt_irrefl _)

/-! ## Components -/

def origin (p : Text) : List Component :=
  if isAbsolute p then [.root]
  else if (pieces p).head? = some dot then [.current]
  else []

theorem components_eq (p : Text) : components p = origin p ++ stepComponents p := by
  unfold origin
  show (if isAbsolute p then .root :: stepComponents p
    else if (pieces p).head? = some dot then .current :: stepComponents p
    else stepComponents p) = _
  split
  · rfl
  · split <;> rfl

theorem stepComponents_append_slash (a b : Text) :
    stepComponents (a ++ '/' :: b) = stepComponents a ++ stepComponents b := by
  rw [stepComponents, pieces_append_slash, List.filterMap_append]
  rfl

theorem stepComponents_of_name {n : Text} (hn : FileTree.isName n = true) (hslash : '/' ∉ n) :
    stepComponents n = [.name n] := by
  have hpiece : Component.ofPiece? n = some (.name n) := by
    simp_all [FileTree.isName, Component.ofPiece?]
  simp [stepComponents, pieces, Text.split_of_not_mem hslash, hpiece]

theorem stepComponents_of_no_dots {p : Text} (h : dots ∉ pieces p) :
    stepComponents p = (steps p).map .name := by
  have hpiece : ∀ n ∈ pieces p, Component.ofPiece? n = (Option.guard isStep n).map .name := by
    intro n hn
    have hdots : n ≠ dots := fun heq => h (heq ▸ hn)
    by_cases hstep : n = [] ∨ n = dot
    · rcases hstep with rfl | rfl <;> rfl
    · simp_all [Component.ofPiece?, isStep, Option.guard]
  rw [stepComponents, List.filterMap_congr hpiece, steps, ← List.filterMap_eq_filter,
    List.map_filterMap]

theorem origin_append_slash {a : Text} (ha : a ≠ []) (b : Text) :
    origin (a ++ '/' :: b) = origin a := by
  have habsolute : isAbsolute (a ++ '/' :: b) = isAbsolute a := by
    cases a with
    | nil => exact absurd rfl ha
    | cons c a => rfl
  have hhead : (pieces (a ++ '/' :: b)).head? = (pieces a).head? := by
    rw [pieces_append_slash]
    cases h : pieces a with
    | nil => exact absurd h (Text.split_ne_nil a)
    | cons p ps => rfl
  simp only [origin, habsolute, hhead]

theorem origin_join {base n : Text} (hbase : base ≠ []) (hn : isAbsolute n = false) :
    origin (join base n) = origin base := by
  obtain ⟨a, ha, -, rfl | rfl⟩ := exists_join_eq hbase hn
  · rw [ha, origin_append_slash hbase]
  · rw [ha]
    by_cases h : a = []
    · simp [h, origin, isAbsolute]
    · rw [origin_append_slash h, origin_append_slash h]

theorem stepComponents_join {base n : Text} (hn : isAbsolute n = false) :
    stepComponents (join base n) = stepComponents base ++ stepComponents n := by
  have hnil : stepComponents [] = [] := rfl
  by_cases hbase : base = []
  · simp [hbase, hnil]
  · obtain ⟨a, ha, -, rfl | rfl⟩ := exists_join_eq hbase hn
    · rw [ha, stepComponents_append_slash]
    · rw [ha, stepComponents_append_slash, stepComponents_append_slash, hnil, List.append_nil]

/-- A name that is joined to a path is one component more. -/
theorem components_join (base : Text) {n : Text} (hn : FileTree.isName n = true)
    (hslash : '/' ∉ n) : components (join base n) = components base ++ [.name n] := by
  have habsolute := isAbsolute_eq_false hslash
  have hstep := stepComponents_of_name hn hslash
  by_cases hbase : base = []
  · have hdot : (pieces n).head? ≠ some dot := by
      simp_all [pieces, Text.split_of_not_mem hslash, FileTree.isName]
    have horigin : origin n = [] := by simp [origin, habsolute, hdot]
    have hnil : components [] = [] := rfl
    rw [hbase, join_nil, components_eq, horigin, hstep, hnil]
  · rw [components_eq, components_eq, origin_join hbase habsolute, stepComponents_join habsolute,
      hstep, List.append_assoc]

theorem root_mem_origin_iff {p : Text} : .root ∈ origin p ↔ isAbsolute p = true := by
  unfold origin
  by_cases h : isAbsolute p = true
  · simp [h]
  · rw [if_neg h]
    split <;> simp [h]

theorem isAbsolute_congr {p q : Text} (h : origin p = origin q) : isAbsolute p = isAbsolute q := by
  rw [Bool.eq_iff_iff, ← root_mem_origin_iff, ← root_mem_origin_iff, h]

theorem root_mem_components_iff {p : Text} : .root ∈ components p ↔ isAbsolute p = true := by
  rw [components_eq, List.mem_append, ← root_mem_origin_iff]
  exact or_iff_left fun h => (ne_of_mem_stepComponents h).1 rfl

theorem steps_congr {p q : Text} (h : components p = components q) : steps p = steps q := by
  have hfilter (p : Text) :
      (components p).filter (fun c => c ≠ .root ∧ c ≠ .current) = stepComponents p := by
    have hsteps : (stepComponents p).filter (fun c => c ≠ .root ∧ c ≠ .current) =
        stepComponents p := List.filter_eq_self.2 fun c hc => by
      simpa using ne_of_mem_stepComponents hc
    rw [components_eq, List.filter_append, hsteps, origin]
    split
    · rfl
    · split <;> rfl
  rw [← map_text_stepComponents, ← map_text_stepComponents, ← hfilter, ← hfilter, h]

end Path

open ModuleRules.Path

namespace FileTree

variable {t : FileTree} {l m : Location} {p q n : Text}

theorem stepsTo_congr (h : components p = components q) : t.stepsTo p = t.stepsTo q := by
  have habsolute : isAbsolute p = isAbsolute q := by
    rw [Bool.eq_iff_iff, ← root_mem_components_iff, ← root_mem_components_iff, h]
  rw [stepsTo, stepsTo, start, start, habsolute, steps_congr h]

theorem IsSound.follow_eq_of_components (ht : t.IsSound) (h : components p = components q)
    (hp : t.follow p = .ok l) (hq : t.follow q = .ok m) : l = m := by
  rw [ht.eq_of_follow hp, ht.eq_of_follow hq, stepsTo_congr h]

theorem start_join (hn : isAbsolute n = false) : t.start (join p n) = t.start p := by
  unfold start
  by_cases hp : p = []
  · have hnil : isAbsolute [] = false := rfl
    rw [hp, join_nil, hn, hnil]
  · rw [isAbsolute_congr (origin_join hp hn)]

theorem stepsTo_join (hname : isName n = true) (hn : '/' ∉ n) :
    t.stepsTo (join p n) = t.stepsTo p ++ [n] := by
  have hrelative := isAbsolute_eq_false hn
  rw [stepsTo, stepsTo, start_join hrelative, steps_join hrelative, steps_of_not_mem hn,
    List.filter_cons_of_pos (isStep_of_isName hname).1, List.append_assoc]
  rfl

theorem eq_of_enter_nil (h : t.enter l [] = .ok m) : m = l := by
  rw [enter_of_not_isStep (directory_of_enter h) rfl] at h
  exact (Except.ok.inj h).symm

theorem foldlM_enter_concat_eq_ok {ns : List Text} : (ns ++ [n]).foldlM t.enter l = .ok m ↔
    ∃ k, ns.foldlM t.enter l = .ok k ∧ t.enter k n = .ok m := by
  rw [List.foldlM_append, bind_eq_ok]
  refine exists_congr fun k => and_congr_right fun _ => ?_
  rw [List.foldlM_cons]
  cases t.enter k n <;> rfl

/-- A name that is joined to a path is entered where the path leads. -/
theorem follow_join_eq_ok (hn : '/' ∉ n) :
    t.follow (join p n) = .ok m ↔ ∃ l, t.follow p = .ok l ∧ t.enter l n = .ok m := by
  obtain ⟨above, hpieces, hp⟩ := exists_pieces_join p hn
  rw [follow, start_join (isAbsolute_eq_false hn), hpieces, foldlM_enter_concat_eq_ok]
  rcases hp with hp | hp
  · rw [follow, hp]
  · -- the slash at the end of the path leads nowhere
    simp only [follow, hp, foldlM_enter_concat_eq_ok]
    refine ⟨fun ⟨k, hk, hm⟩ => ?_, fun ⟨k, ⟨k', hk', hnil⟩, hm⟩ => ?_⟩
    · exact ⟨k, ⟨k, hk, enter_of_not_isStep (directory_of_enter hm) rfl⟩, hm⟩
    · obtain rfl := eq_of_enter_nil hnil
      exact ⟨k, hk', hm⟩

end FileTree

end ModuleRules
