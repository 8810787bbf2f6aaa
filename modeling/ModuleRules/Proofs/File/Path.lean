import Mathlib.Data.List.Infix
import ModuleRules.File.Path
import ModuleRules.Proofs.Text.Segment

/-!
# The steps of a path

A path leads on by its steps, the names and double dots between its slashes;
slashes and lone dots lead nowhere. Joining appends steps, the absolute form
puts those of the working directory in front, and each ancestor lacks the
last step of the one before (`map_steps_ancestors`).
-/

namespace ModuleRules.Path

open Text

def isStep (piece : Text) : Bool := piece ≠ [] && piece ≠ dot

def steps (p : Text) : List Text := (pieces p).filter isStep

/-! ## Steps of a text -/

@[simp] theorem steps_nil : steps [] = [] := rfl

theorem pieces_append_slash (a b : Text) : pieces (a ++ '/' :: b) = pieces a ++ pieces b :=
  split_append_sep '/' a b

theorem steps_append_slash (a b : Text) : steps (a ++ '/' :: b) = steps a ++ steps b := by
  rw [steps, pieces_append_slash, List.filter_append]
  rfl

theorem steps_slash_cons (b : Text) : steps ('/' :: b) = steps b := steps_append_slash [] b

theorem steps_concat_slash (a : Text) : steps (a ++ ['/']) = steps a := by
  simp [steps_append_slash]

theorem steps_of_not_mem {n : Text} (h : '/' ∉ n) : steps n = [n].filter isStep := by
  rw [steps, pieces, split_of_not_mem h]

theorem not_mem_of_mem_steps {p n : Text} (h : n ∈ steps p) : '/' ∉ n :=
  not_mem_of_mem_split (List.mem_of_mem_filter h)

theorem isAbsolute_iff {p : Text} : isAbsolute p = true ↔ ∃ b, p = '/' :: b := by
  cases p <;> simp [isAbsolute]

theorem isAbsolute_eq_false {n : Text} (h : '/' ∉ n) : isAbsolute n = false := by
  cases n with
  | nil => rfl
  | cons c r => simp_all [isAbsolute, eq_comm]

/-! ## Joining -/

@[simp] theorem join_nil (name : Text) : join [] name = name := if_pos (.inr rfl)

theorem join_eq {base name : Text} (hbase : base ≠ []) (hname : isAbsolute name = false) :
    join base name = base ++ name ∨ join base name = base ++ '/' :: name := by
  unfold join
  rw [if_neg (by simp [hbase, hname])]
  split
  · exact .inl rfl
  · exact .inr rfl

/-- The name comes to stand behind a slash, after pieces with the steps of the base. -/
theorem exists_join_eq {base name : Text} (hbase : base ≠ []) (hname : isAbsolute name = false) :
    ∃ a, join base name = a ++ '/' :: name ∧ steps a = steps base ∧
      (base = a ∨ base = a ++ ['/']) := by
  unfold join
  rw [if_neg (by simp [hbase, hname])]
  by_cases h : base.getLast? = some '/'
  · obtain ⟨a, rfl⟩ := List.getLast?_eq_some_iff.1 h
    rw [if_pos h]
    exact ⟨a, by simp, (steps_concat_slash a).symm, .inr rfl⟩
  · rw [if_neg h]
    exact ⟨base, rfl, rfl, .inl rfl⟩

/-- The name is the last piece, after those of the base without a slash at the end. -/
theorem exists_pieces_join (base : Text) {name : Text} (hn : '/' ∉ name) :
    ∃ above, pieces (join base name) = above ++ [name] ∧
      (pieces base = above ∨ pieces base = above ++ [[]]) := by
  have hpieces : pieces name = [name] := split_of_not_mem hn
  by_cases hbase : base = []
  · exact ⟨[], by rw [hbase, join_nil, hpieces]; rfl, .inr (by rw [hbase]; rfl)⟩
  · obtain ⟨a, ha, -, hcases⟩ := exists_join_eq hbase (isAbsolute_eq_false hn)
    refine ⟨pieces a, by rw [ha, pieces_append_slash, hpieces], hcases.imp ?_ ?_⟩
    · exact congrArg pieces
    · intro h
      rw [h, pieces_append_slash]
      rfl

theorem steps_join {base name : Text} (h : isAbsolute name = false) :
    steps (join base name) = steps base ++ steps name := by
  by_cases hbase : base = []
  · simp [hbase]
  · obtain ⟨a, ha, hsteps, -⟩ := exists_join_eq hbase h
    rw [ha, steps_append_slash, hsteps]

theorem isAbsolute_join {base name : Text} (hbase : isAbsolute base = true)
    (h : isAbsolute name = false) : isAbsolute (join base name) = true := by
  obtain ⟨b, rfl⟩ := isAbsolute_iff.1 hbase
  unfold join
  rw [if_neg (by simp [h])]
  split <;> simp [isAbsolute]

/-! ## Absolute forms -/

def stepComponents (p : Text) : List Component := (pieces p).filterMap Component.ofPiece?

theorem map_text_ofPiece? (piece : Text) :
    (Component.ofPiece? piece).map Component.text = Option.guard isStep piece := by
  by_cases hempty : piece = []
  · simp [hempty, Component.ofPiece?, isStep, Option.guard]
  · by_cases hdot : piece = dot
    · simp [hdot, Component.ofPiece?, isStep, Option.guard]
    · by_cases hdots : piece = dots <;>
        simp_all [Component.ofPiece?, Component.text, isStep, Option.guard]

theorem map_text_stepComponents (p : Text) : (stepComponents p).map Component.text = steps p := by
  rw [stepComponents, steps, List.map_filterMap, ← List.filterMap_eq_filter]
  exact List.filterMap_congr fun piece _ => map_text_ofPiece? piece

theorem ne_of_mem_stepComponents {p : Text} {c : Component} (h : c ∈ stepComponents p) :
    c ≠ .root ∧ c ≠ .current := by
  obtain ⟨piece, -, hpiece⟩ := List.mem_filterMap.1 h
  unfold Component.ofPiece? at hpiece
  split at hpiece
  · cases hpiece
  · split at hpiece <;> cases hpiece <;> simp

theorem filter_stepComponents (p : Text) :
    (stepComponents p).filter (· ≠ .root) = stepComponents p ∧
      (stepComponents p).filter (· ≠ .current) = stepComponents p := by
  constructor <;> refine List.filter_eq_self.2 fun c hc => ?_
  · simpa using (ne_of_mem_stepComponents hc).1
  · simpa using (ne_of_mem_stepComponents hc).2

theorem filter_components (p : Text) : (components p).filter (· ≠ .current) =
    (if isAbsolute p then [.root] else []) ++ stepComponents p := by
  have hcurrent := (filter_stepComponents p).2
  change List.filter (· ≠ .current) (if isAbsolute p then .root :: stepComponents p
    else if (pieces p).head? = some dot then .current :: stepComponents p
    else stepComponents p) = _
  by_cases hp : isAbsolute p = true
  · rw [if_pos hp, if_pos hp, List.filter_cons_of_pos (by simp), hcurrent]
    rfl
  · rw [if_neg hp, if_neg hp]
    by_cases hd : (pieces p).head? = some dot
    · rw [if_pos hd, List.filter_cons_of_neg (by simp), hcurrent]
      rfl
    · rw [if_neg hd, hcurrent]
      rfl

theorem steps_extend {cs : List Component} (h : ∀ c ∈ cs, '/' ∉ c.text) {base : Text}
    (hbase : isAbsolute base = true) : isAbsolute (extend base cs) = true ∧
      steps (extend base cs) = steps base ++ (cs.map Component.text).filter isStep := by
  induction cs generalizing base with
  | nil => simpa [extend] using hbase
  | cons c cs ih =>
    obtain ⟨hc, hcs⟩ := List.forall_mem_cons.1 h
    have hrelative := isAbsolute_eq_false hc
    obtain ⟨habsolute, hsteps⟩ := ih hcs (isAbsolute_join hbase hrelative)
    refine ⟨habsolute, hsteps.trans ?_⟩
    rw [steps_join hrelative, steps_of_not_mem hc, List.append_assoc, ← List.filter_append]
    rfl

theorem steps_extend_stepComponents (p : Text) {base : Text} (hbase : isAbsolute base = true) :
    isAbsolute (extend base (stepComponents p)) = true ∧
      steps (extend base (stepComponents p)) = steps base ++ steps p := by
  have hslash : ∀ c ∈ stepComponents p, '/' ∉ c.text := by
    intro c hc
    have hmem := List.mem_map_of_mem (f := Component.text) hc
    rw [map_text_stepComponents] at hmem
    exact not_mem_of_mem_steps hmem
  have hall : (steps p).filter isStep = steps p :=
    List.filter_eq_self.2 fun _ hn => (List.mem_filter.1 hn).2
  have h := steps_extend hslash hbase
  rwa [map_text_stepComponents, hall] at h

/-- The steps of the working directory come first unless the path is from the root. -/
theorem exists_absolute {wd p : Text} (hwd : isAbsolute wd = true) (hp : p ≠ []) : ∃ q,
    absolute wd p = .ok q ∧ isAbsolute q = true ∧
      steps q = (if isAbsolute p then [] else steps wd) ++ steps p := by
  have hslash {base : Text} {ss : List Text} (h : isAbsolute base = true ∧ steps base = ss) :
      isAbsolute (if p.getLast? = some '/' then join base [] else base) = true ∧
        steps (if p.getLast? = some '/' then join base [] else base) = ss := by
    split
    · exact ⟨isAbsolute_join h.1 rfl, by rw [steps_join rfl, steps_nil, List.append_nil, h.2]⟩
    · exact h
  unfold absolute
  simp only [if_neg hp, filter_components]
  refine ⟨_, rfl, hslash ?_⟩
  by_cases habs : isAbsolute p = true
  · simp only [habs, if_true, List.singleton_append]
    split
    · rw [List.filter_cons_of_neg (by simp), (filter_stepComponents p).1]
      exact steps_extend_stepComponents p (rfl : isAbsolute "//" = true)
    · exact steps_extend_stepComponents p (rfl : isAbsolute "/" = true)
  · simp only [habs]
    exact steps_extend_stepComponents p hwd

/-! ## Parents -/

theorem steps_skipBack (r : Text) : steps (skipBack r).reverse = steps r.reverse := by
  fun_induction skipBack r with
  | case1 r ih => simpa [steps_concat_slash] using ih
  | case2 r ih =>
    have h := steps_append_slash r.reverse dot
    rw [show steps dot = [] from rfl, List.append_nil] at h
    simpa [dot, ih] using h.symm
  | case3 => rfl
  | case4 => rfl

theorem skipBack_suffix (r : Text) : skipBack r <:+ r := by
  fun_induction skipBack r with
  | case1 r ih => exact ih.trans (List.suffix_cons _ _)
  | case2 r ih => exact ih.trans ((List.suffix_cons _ _).trans (List.suffix_cons _ _))
  | case3 => exact List.nil_suffix
  | case4 => exact List.suffix_refl _

/-- What is not passed over ends in a step. -/
theorem exists_of_skipBack_ne_nil {r : Text} (h : skipBack r ≠ []) : ∃ n,
    skipBack r = n.reverse ++ (skipBack r).dropWhile (· ≠ '/') ∧ '/' ∉ n ∧ isStep n = true := by
  refine ⟨((skipBack r).takeWhile (· ≠ '/')).reverse, by simp, ?_, ?_⟩
  · intro hmem
    simpa using List.mem_takeWhile_imp (List.mem_reverse.1 hmem)
  · fun_induction skipBack r with
    | case1 r ih => exact ih h
    | case2 r ih => exact ih h
    | case3 => exact absurd rfl h
    | case4 r hslash hdot hlone =>
      match r with
      | [] => exact absurd rfl h
      | [c] => simp_all [isStep, dot, List.takeWhile]
      | c :: d :: r =>
        have hc : c ≠ '/' := by simpa using hslash
        by_cases hd : d = '/'
        · simp_all [isStep, dot]
        · have hne (t : Text) : t ++ [d, c] ≠ ['.'] := fun h => by
            simpa using congrArg List.length h
          simp [isStep, dot, hc, hd, hne]

theorem dropWhile_ne_slash (u : Text) :
    u.dropWhile (· ≠ '/') = [] ∨ ∃ w, u.dropWhile (· ≠ '/') = '/' :: w := by
  induction u with
  | nil => exact .inl rfl
  | cons c u ih =>
    by_cases hc : c = '/'
    · exact .inr ⟨u, by simp [hc]⟩
    · simpa [hc] using ih

theorem steps_eq_append_of_skipBack {r : Text} (h : skipBack r ≠ []) : ∃ n,
    steps r.reverse = steps ((skipBack r).dropWhile (· ≠ '/')).reverse ++ [n] := by
  obtain ⟨n, hn, hslash, hstep⟩ := exists_of_skipBack_ne_nil h
  have hname : steps n = [n] := by simp [steps_of_not_mem hslash, hstep]
  refine ⟨n, ?_⟩
  rw [← steps_skipBack]
  rcases dropWhile_ne_slash (skipBack r) with hs | ⟨w, hs⟩
  · rw [hs, List.append_nil] at hn
    rw [hs, hn]
    simp [hname]
  · rw [hs] at hn
    rw [hs, hn]
    simp [steps_append_slash, hname]

theorem skipBack_eq_nil_iff {r : Text} : skipBack r = [] ↔ steps r.reverse = [] := by
  constructor
  · intro h
    rw [← steps_skipBack, h]
    rfl
  · intro h
    by_contra hne
    obtain ⟨n, hn⟩ := steps_eq_append_of_skipBack hne
    simp [h] at hn

theorem steps_dropBack (r : Text) : steps (dropBack r).reverse = (steps r.reverse).dropLast := by
  rw [dropBack, steps_skipBack]
  by_cases h : skipBack r = []
  · rw [h, skipBack_eq_nil_iff.1 h]
    rfl
  · obtain ⟨n, hn⟩ := steps_eq_append_of_skipBack h
    rw [hn, List.dropLast_concat]

theorem dropBack_suffix (r : Text) : dropBack r <:+ r :=
  ((skipBack_suffix _).trans (List.dropWhile_suffix _)).trans (skipBack_suffix r)

/-- The parent of a path from the root is a beginning of its text without the last step. -/
theorem parent?_eq {p : Text} (hp : isAbsolute p = true) :
    if steps p = [] then parent? p = none
    else ∃ q, parent? p = some q ∧ isAbsolute q = true ∧ q <+: p ∧
      steps q = (steps p).dropLast := by
  obtain ⟨b, rfl⟩ := isAbsolute_iff.1 hp
  have hskip : skipBack b.reverse = [] ↔ steps ('/' :: b) = [] := by
    rw [skipBack_eq_nil_iff, List.reverse_reverse, steps_slash_cons]
  by_cases h : steps ('/' :: b) = []
  · rw [if_pos h]
    simp [parent?, cutStart, hskip.2 h, dot]
  · rw [if_neg h]
    refine ⟨'/' :: (dropBack b.reverse).reverse, ?_, by simp [isAbsolute], ?_, ?_⟩
    · simp [parent?, cutStart, mt hskip.1 h]
    · obtain ⟨s, hs⟩ := dropBack_suffix b.reverse
      exact ⟨s.reverse, by rw [List.cons_append, ← List.reverse_append, hs, List.reverse_reverse]⟩
    · rw [steps_slash_cons, steps_slash_cons, steps_dropBack, List.reverse_reverse]

/-- What a path starts with in front of its body is no step. -/
theorem steps_append_of_cutStart {p start body x : Text} (h : cutStart p = (start, body))
    (hx : x <+: body) : steps (start ++ x) = steps x := by
  unfold cutStart at h
  split at h <;> cases h
  next => exact steps_slash_cons x
  next =>
    rw [List.prefix_nil.1 hx]
    rfl
  next =>
    rcases List.prefix_cons_iff.1 hx with rfl | ⟨y, rfl, -⟩
    · rfl
    · rw [steps_append_slash, steps_slash_cons]
      rfl
  next => rfl

theorem append_of_cutStart {p start body : Text} (h : cutStart p = (start, body)) :
    p = start ++ body := by
  unfold cutStart at h
  split at h <;> cases h <;> rfl

theorem prefix_of_parent? {p q : Text} (h : parent? p = some q) :
    q <+: p ∧ steps q <+: steps p := by
  obtain ⟨start, body, hcut⟩ : ∃ start body, cutStart p = (start, body) := ⟨_, _, rfl⟩
  have hp := append_of_cutStart hcut
  simp only [parent?, hcut] at h
  split at h
  · split at h
    · cases h
      exact ⟨List.nil_prefix, List.nil_prefix⟩
    · cases h
  · cases h
    have hbody : (dropBack body.reverse).reverse <+: body := by
      simpa using List.reverse_prefix.2 (dropBack_suffix body.reverse)
    rw [hp]
    refine ⟨(List.prefix_append_right_inj start).2 hbody, ?_⟩
    rw [steps_append_of_cutStart hcut hbody, steps_append_of_cutStart hcut (List.prefix_refl body),
      steps_dropBack, List.reverse_reverse]
    exact List.dropLast_prefix _

/-! ## Ancestors -/

theorem prefix_of_mem_ancestorsUpTo {q : Text} : ∀ {fuel : Nat} {p : Text},
    q ∈ ancestorsUpTo fuel p → q <+: p ∧ steps q <+: steps p
  | 0, p, h => by cases h
  | fuel + 1, p, h => by
    rw [ancestorsUpTo] at h
    rcases List.mem_cons.1 h with rfl | h
    · exact ⟨List.prefix_refl q, List.prefix_refl _⟩
    · split at h
      next r hr =>
        obtain ⟨hbegin, hsteps⟩ := prefix_of_parent? hr
        obtain ⟨hbegin', hsteps'⟩ := prefix_of_mem_ancestorsUpTo h
        exact ⟨hbegin'.trans hbegin, hsteps'.trans hsteps⟩
      next => cases h

def upward {α : Type} (l : List α) : List (List α) := l.inits.reverse

theorem upward_nil {α : Type} : upward ([] : List α) = [[]] := rfl

theorem upward_concat {α : Type} (l : List α) (a : α) :
    upward (l ++ [a]) = (l ++ [a]) :: upward l := by
  simp [upward, List.inits_append]

theorem upward_of_ne_nil {α : Type} {l : List α} (h : l ≠ []) :
    upward l = l :: upward l.dropLast := by
  obtain ⟨l, a, rfl⟩ := List.eq_nil_or_concat l |>.resolve_left h
  simp [upward_concat]

theorem mem_upward {α : Type} {k l : List α} : k ∈ upward l ↔ k <+: l := by
  simp [upward, List.mem_inits]

theorem nodup_upward {α : Type} (l : List α) : (upward l).Nodup := by
  induction l using List.reverseRecOn with
  | nil => simp [upward_nil]
  | append_singleton l a ih =>
    rw [upward_concat, List.nodup_cons]
    refine ⟨fun h => ?_, ih⟩
    have hle := (mem_upward.1 h).length_le
    rw [List.length_append, List.length_singleton] at hle
    omega

theorem map_steps_ancestorsUpTo : ∀ {fuel : Nat} {p : Text}, p.length < fuel →
    isAbsolute p = true → (ancestorsUpTo fuel p).map steps = upward (steps p) ∧
      ∀ q ∈ ancestorsUpTo fuel p, isAbsolute q = true ∧ q <+: p
  | 0, p, hfuel, _ => by omega
  | fuel + 1, p, hfuel, hp => by
    have hparent := parent?_eq hp
    rw [ancestorsUpTo]
    by_cases h : steps p = []
    · rw [if_pos h] at hparent
      simp [hparent, h, upward_nil, hp]
    · rw [if_neg h] at hparent
      obtain ⟨q, hq, habsolute, hbegin, hsteps⟩ := hparent
      have hlength : q.length < fuel := by
        have hne : q ≠ p := by
          rintro rfl
          have hlength := congrArg List.length hsteps
          have hpos := List.length_pos_iff.2 h
          rw [List.length_dropLast] at hlength
          omega
        have hle := hbegin.length_le
        have hlt := mt hbegin.eq_of_length hne
        omega
      obtain ⟨hmap, hmem⟩ := map_steps_ancestorsUpTo hlength habsolute
      simp only [hq, List.map_cons, hmap, hsteps, upward_of_ne_nil h, List.forall_mem_cons]
      refine ⟨trivial, ⟨hp, List.prefix_refl p⟩, fun r hr => ?_⟩
      exact ⟨(hmem r hr).1, (hmem r hr).2.trans hbegin⟩

/-- Going up from a path from the root takes off one step after the other. -/
theorem map_steps_ancestors {p : Text} (hp : isAbsolute p = true) :
    (ancestors p).map steps = upward (steps p) ∧
      ∀ q ∈ ancestors p, isAbsolute q = true ∧ q <+: p :=
  map_steps_ancestorsUpTo (Nat.lt_succ_self _) hp

end ModuleRules.Path
