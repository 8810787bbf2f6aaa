import Mathlib.Tactic.MkIffOfInductiveProp
import ModuleRules.Bom.Markup
import ModuleRules.Proofs.Text.Mark
import ModuleRules.Proofs.Text.Segment

/-!
# Spans of texts that are put together

Where the marks of a text are found depends on all of it: a mark can begin in
one part and end in the next. Of two kinds of parts the rest of the text can
be looked at on its own. Nothing begins in a part that is clear of a mark, and
in a settled part every span that begins also ends. Then finding the first
span, taking spans out and listing them go part by part.
-/

namespace ModuleRules.Markup

open Text

variable {m : Marks} {ms : List Marks} {t u rest inside : Text}

def Marks.around (m : Marks) (inside : Text) : Text := m.opening ++ (inside ++ m.closing)

theorem Marks.around_append (m : Marks) (inside rest : Text) :
    m.around inside ++ rest = m.opening ++ (inside ++ (m.closing ++ rest)) := by
  simp [around]

def tag (name : Text) : Text := '<' :: (name ++ ['>'])

theorem tag_ne_nil (name : Text) : tag name ≠ [] := List.cons_ne_nil _ _

@[simp] theorem opening_ofTag (name : Text) : (Marks.ofTag name).opening = tag name := rfl

@[simp] theorem closing_ofTag (name : Text) : (Marks.ofTag name).closing = tag ('/' :: name) := rfl

structure Marks.IsProper (m : Marks) : Prop where
  opening : m.opening ≠ []
  closing : m.closing ≠ []

theorem Marks.IsProper.exists_around_eq_cons (hm : m.IsProper) (inside rest : Text) :
    ∃ c t, m.around inside ++ rest = c :: t := by
  refine List.exists_cons_of_ne_nil fun h => hm.opening ?_
  rw [m.around_append] at h
  exact (List.append_eq_nil_iff.1 h).1

def element (name inside : Text) : Text := (Marks.ofTag name).around inside

theorem isProper_ofTag (name : Text) : (Marks.ofTag name).IsProper :=
  ⟨tag_ne_nil _, tag_ne_nil _⟩

/-! ## Names of tags -/

def Lacks (cs : List Char) (t : Text) : Prop := ∀ c ∈ t, c ∉ cs

instance (cs : List Char) (t : Text) : Decidable (Lacks cs t) := List.decidableBAll (· ∉ cs) t

theorem Lacks.not_mem {cs : List Char} {c : Char} (h : Lacks cs t) (hc : c ∈ cs) : c ∉ t :=
  fun hmem => h c hmem hc

theorem Lacks.append {cs : List Char} (ht : Lacks cs t) (hu : Lacks cs u) : Lacks cs (t ++ u) :=
  fun c hc => (List.mem_append.1 hc).elim (ht c) (hu c)

def IsName (name : Text) : Prop := Lacks ['<', '>', '/', '!', '?'] name

instance (name : Text) : Decidable (IsName name) := inferInstanceAs (Decidable (Lacks _ name))

variable {name name' : Text}

theorem IsName.not_mem (h : IsName name) {c : Char} (hc : c ∈ ['<', '>', '/', '!', '?']) : c ∉ name :=
  Lacks.not_mem h hc

theorem eq_of_prefix_append (hgt : '>' ∉ name) (hgt' : '>' ∉ name')
    (h : name ++ ['>'] <+: name' ++ '>' :: rest) : name = name' := by
  obtain ⟨r, hr⟩ := h
  have hleft : splitOnce '>' (name ++ '>' :: r) = some (name, r) := splitOnce_eq_some_iff.2 ⟨rfl, hgt⟩
  have hright : splitOnce '>' (name' ++ '>' :: rest) = some (name', rest) :=
    splitOnce_eq_some_iff.2 ⟨rfl, hgt'⟩
  rw [← hr, List.append_assoc, List.singleton_append, hleft] at hright
  cases hright
  rfl

theorem eq_of_prefix_tag_append (hgt : '>' ∉ name) (hgt' : '>' ∉ name') (h : tag name <+: tag name' ++ rest) :
    name = name' := by
  have hpre : name ++ ['>'] <+: name' ++ ['>'] ++ rest := (List.cons_prefix_cons.1 h).2
  rw [List.append_assoc, List.singleton_append] at hpre
  exact eq_of_prefix_append hgt hgt' hpre

theorem isClear_tag {mark : Text} (hlt : '<' ∉ name) (h : ∀ rest, ¬ mark <+: name ++ '>' :: rest) :
    IsClear ('<' :: mark) (tag name) := by
  refine isClear_cons_of_not_mem (by simp [hlt]) fun rest => ?_
  rw [List.append_assoc]
  exact h rest

/-- Neither mark of an element begins in the text, whatever follows. -/
structure Avoids (name t : Text) : Prop where
  opening : IsClear (tag name) t
  closing : IsClear (tag ('/' :: name)) t

theorem avoids_of_not_mem (name : Text) (h : '<' ∉ t) : Avoids name t :=
  ⟨isClear_of_not_mem h, isClear_of_not_mem h⟩

theorem Avoids.append (ht : Avoids name t) (hu : Avoids name u) : Avoids name (t ++ u) :=
  ⟨ht.opening.append hu.opening, ht.closing.append hu.closing⟩

/-- Of the marks of an element only itself can begin with a tag. -/
theorem avoids_tag (hname : IsName name) (hlt : '<' ∉ name') (hgt : '>' ∉ name') (hne : name' ≠ name)
    (hclose : name' ≠ '/' :: name) : Avoids name (tag name') := by
  have hmark := hname.not_mem (c := '>') (by simp)
  refine ⟨isClear_tag hlt fun rest hpre => ?_, isClear_tag hlt fun rest hpre => ?_⟩
  · exact hne (eq_of_prefix_append hmark hgt hpre).symm
  · exact hclose (eq_of_prefix_append (by simp [hmark]) hgt hpre).symm

section
variable (hname : IsName name) (hname' : IsName name') (hne : name' ≠ name)
include hname hname' hne

theorem avoids_opening : Avoids name (tag name') := by
  refine avoids_tag hname (hname'.not_mem (by simp)) (hname'.not_mem (by simp)) hne ?_
  rintro rfl
  exact hname'.not_mem (c := '/') (by simp) List.mem_cons_self

theorem avoids_closing : Avoids name (tag ('/' :: name')) := by
  have hlt := hname'.not_mem (c := '<') (by simp)
  have hgt := hname'.not_mem (c := '>') (by simp)
  refine avoids_tag hname (by simp [hlt]) (by simp [hgt]) ?_ (by simpa using hne)
  rintro rfl
  exact hname.not_mem (c := '/') (by simp) List.mem_cons_self

theorem Avoids.element (h : Avoids name t) : Avoids name (element name' t) :=
  (avoids_opening hname hname' hne).append (h.append (avoids_closing hname hname' hne))

end

theorem isClear_element {mark : Text} (hmark : '<' ∉ mark) (hopen : IsClear ('<' :: mark) (tag name))
    (hclose : IsClear ('<' :: mark) (tag ('/' :: name))) (h : ¬ '<' :: mark <:+: t) :
    IsClear ('<' :: mark) (element name t) :=
  hopen.append (isClear_append_cons hmark h hclose)

/-! ## A span at the beginning -/

theorem here?_eq_none (h : ¬ m.opening <+: t) : m.here? t = none := by
  rw [Marks.here?, after?_eq_none_iff.2 h]
  rfl

/-- A span with the inside does not end before the inside does. -/
def Marks.Encloses (m : Marks) (inside : Text) : Prop :=
  ∀ rest, cut? m.closing (inside ++ (m.closing ++ rest)) = some (inside, rest)

theorem Marks.IsProper.encloses_of_isClear (hm : m.IsProper) (h : IsClear m.closing inside) :
    m.Encloses inside :=
  h.cut? hm.closing

theorem Avoids.encloses (h : Avoids name inside) : (Marks.ofTag name).Encloses inside :=
  (isProper_ofTag name).encloses_of_isClear h.closing

theorem encloses_ofTag (hname : '<' ∉ name)
    (h : ¬ (Marks.ofTag name).closing <:+: inside) : (Marks.ofTag name).Encloses inside :=
  fun rest => (isBorderless_cons (by simp [hname])).cut? (tag_ne_nil _) rest h

theorem here?_around (h : m.Encloses inside) (rest : Text) :
    m.here? (m.around inside ++ rest) = some (inside, rest) := by
  have hafter : after? m.opening (m.around inside ++ rest) =
      some (inside ++ (m.closing ++ rest)) := after?_eq_some_iff.2 (m.around_append inside rest)
  rw [Marks.here?, hafter, Option.bind_some, h]

theorem eq_around_of_here? (h : m.here? t = some (inside, rest)) : t = m.around inside ++ rest := by
  obtain ⟨r, hr, hcut⟩ := Option.bind_eq_some_iff.1 h
  rw [m.around_append, ← eq_append_of_cut? hcut]
  exact after?_eq_some_iff.1 hr

theorem here?_append_of_eq_some (hm : m.closing ≠ []) (h : m.here? t = some (inside, rest))
    (u : Text) : m.here? (t ++ u) = some (inside, rest ++ u) := by
  obtain ⟨r, hr, hcut⟩ := Option.bind_eq_some_iff.1 h
  have hafter : after? m.opening (t ++ u) = some (r ++ u) := by
    rw [after?_eq_some_iff, after?_eq_some_iff.1 hr, List.append_assoc]
  rw [Marks.here?, hafter, Option.bind_some, cut?_append_of_eq_some hm u hcut]

theorem length_lt_of_here? (hm : m.IsProper) (h : m.here? t = some (inside, rest)) :
    rest.length < t.length := by
  have hpos := List.length_pos_iff.2 hm.opening
  rw [eq_around_of_here? h, m.around_append]
  simp only [List.length_append]
  omega

theorem suffix_of_here? (h : m.here? t = some (inside, rest)) : rest <:+ t :=
  ⟨m.around inside, (eq_around_of_here? h).symm⟩

/-! ## Settled texts -/

def Marks.IsSettled (m : Marks) (t : Text) : Prop :=
  ∀ u, u <:+ t → u ≠ [] → ∀ rest, m.here? (u ++ rest) = (m.here? u).map fun x => (x.1, x.2 ++ rest)

theorem Marks.IsSettled.of_suffix (h : m.IsSettled t) (hu : u <:+ t) : m.IsSettled u :=
  fun v hv => h v (hv.trans hu)

/-- Every `<` has a `>` behind it, and every span of the marks that is opened is closed. -/
@[mk_iff]
structure IsClosed (ms : List Marks) (t : Text) : Prop where
  whole : IsWhole t
  spans : ∀ m ∈ ms, ∀ u, u <:+ t → m.opening <+: u → (m.here? u).isSome = true

instance (ms : List Marks) (t : Text) : Decidable (IsClosed ms t) :=
  decidable_of_iff ((∀ u ∈ t.tails, u.head? = some '<' → '>' ∈ u) ∧
    ∀ m ∈ ms, ∀ u ∈ t.tails, m.opening <+: u → (m.here? u).isSome = true)
    (by simp only [isClosed_iff, IsWhole, List.mem_tails])

theorem IsClosed.isSettled (h : IsClosed ms t) (hm : m ∈ ms) (hproper : m.IsProper)
    {o : Text} (ho : m.opening = '<' :: o) (hlast : '>' ∉ o.dropLast) : m.IsSettled t := by
  intro u hu hne rest
  by_cases hpre : m.opening <+: u
  · obtain ⟨⟨inside, r⟩, hx⟩ := Option.isSome_iff_exists.1 (h.spans m hm u hu hpre)
    rw [hx, here?_append_of_eq_some hproper.closing hx]
    rfl
  · have hlong : ¬ m.opening <+: u ++ rest := by
      rw [ho] at hpre ⊢
      exact fun h' => hpre ((h.whole.of_suffix hu).prefix_of_prefix_append hne hlast h')
    rw [here?_eq_none hpre, here?_eq_none hlong]
    rfl

/-! ## The first span -/

theorem next?_nil (hm : m.IsProper) : m.next? [] = none :=
  here?_eq_none fun h => hm.opening (List.prefix_nil.1 h)

theorem next?_append (hm : m.IsProper) (h : m.IsSettled t) (rest : Text) :
    m.next? (t ++ rest) = ((m.next? t).map fun x => (x.1, x.2 ++ rest)).or (m.next? rest) := by
  induction t with
  | nil => rw [next?_nil hm]; rfl
  | cons c t ih =>
    have hc := h (c :: t) (List.suffix_refl _) (by simp) rest
    rw [List.cons_append] at hc
    rw [List.cons_append, Marks.next?, Marks.next?, hc]
    cases m.here? (c :: t) with
    | some x => rfl
    | none => exact ih (h.of_suffix (List.suffix_cons c t))

theorem next?_of_isClear (h : IsClear m.opening t) (rest : Text) :
    m.next? (t ++ rest) = m.next? rest := by
  induction t with
  | nil => rfl
  | cons c t ih =>
    obtain ⟨hc, ht⟩ := isClear_cons.1 h
    have hnone : m.here? (c :: (t ++ rest)) = none := here?_eq_none (hc rest)
    rw [List.cons_append, Marks.next?, hnone]
    exact ih ht

theorem next?_around (hm : m.IsProper) (h : m.Encloses inside) (rest : Text) :
    m.next? (m.around inside ++ rest) = some (inside, rest) := by
  have hhere := here?_around h rest
  obtain ⟨c, t, ht⟩ := hm.exists_around_eq_cons inside rest
  rw [ht] at hhere ⊢
  rw [Marks.next?, hhere]

theorem length_lt_of_next? (hm : m.IsProper) : ∀ {t : Text}, m.next? t = some (inside, rest) →
    rest.length < t.length
  | [], h => by rw [next?_nil hm] at h; cases h
  | c :: t, h => by
    rw [Marks.next?] at h
    cases hhere : m.here? (c :: t) with
    | some x =>
      rw [hhere] at h
      cases h
      exact length_lt_of_here? hm hhere
    | none =>
      rw [hhere] at h
      exact Nat.lt_succ_of_lt (length_lt_of_next? hm h)

/-! ## All spans -/

theorem insidesUpTo_congr (hm : m.IsProper) : ∀ {j k : Nat} {t : Text}, t.length ≤ j →
    t.length ≤ k → m.insidesUpTo j t = m.insidesUpTo k t
  | j, k, t, hj, hk => by
    cases hnext : m.next? t with
    | none => cases j <;> cases k <;> simp [Marks.insidesUpTo, hnext]
    | some x =>
      obtain ⟨inside, rest⟩ := x
      have hlt := length_lt_of_next? hm hnext
      obtain ⟨j, rfl⟩ : ∃ i, j = i + 1 := ⟨j - 1, by omega⟩
      obtain ⟨k, rfl⟩ : ∃ i, k = i + 1 := ⟨k - 1, by omega⟩
      simp only [Marks.insidesUpTo, hnext]
      rw [insidesUpTo_congr hm (j := j) (k := k) (by omega) (by omega)]

theorem insides_of_next? (hm : m.IsProper) (h : m.next? t = some (inside, rest)) :
    m.insides t = inside :: m.insides rest := by
  have hlt := length_lt_of_next? hm h
  obtain ⟨k, hk⟩ : ∃ k, t.length = k + 1 := ⟨t.length - 1, by omega⟩
  rw [Marks.insides, hk, Marks.insidesUpTo, h]
  exact congrArg _ (insidesUpTo_congr hm (by omega) le_rfl)

theorem insides_of_next?_eq_none (h : m.next? t = none) : m.insides t = [] := by
  unfold Marks.insides
  cases t.length <;> simp [Marks.insidesUpTo, h]

theorem insides_of_isClear (hm : m.IsProper) (h : IsClear m.opening t) (rest : Text) :
    m.insides (t ++ rest) = m.insides rest := by
  have hnext := next?_of_isClear h rest
  cases hrest : m.next? rest with
  | none =>
    rw [hrest] at hnext
    rw [insides_of_next?_eq_none hnext, insides_of_next?_eq_none hrest]
  | some x =>
    rw [hrest] at hnext
    rw [insides_of_next? hm hnext, insides_of_next? hm hrest]

/-! ## Taking spans out -/

section
variable (hms : ∀ m ∈ ms, m.IsProper)
include hms

theorem length_lt_of_findSome? (h : ms.findSome? (·.here? t) = some (inside, rest)) :
    rest.length < t.length := by
  obtain ⟨m, hm, hhere⟩ := List.exists_of_findSome?_eq_some h
  exact length_lt_of_here? (hms m hm) hhere

theorem removeUpTo_congr : ∀ {j k : Nat} {t : Text}, t.length ≤ j → t.length ≤ k →
    removeUpTo ms j t = removeUpTo ms k t
  | j, k, [], _, _ => by cases j <;> cases k <;> rfl
  | j + 1, k + 1, c :: t, hj, hk => by
    rw [List.length_cons] at hj hk
    simp only [removeUpTo]
    cases hspan : ms.findSome? (·.here? (c :: t)) with
    | none =>
      simp only
      rw [removeUpTo_congr (j := j) (k := k) (by omega) (by omega)]
    | some x =>
      have hlt := length_lt_of_findSome? hms hspan
      rw [List.length_cons] at hlt
      exact removeUpTo_congr (by omega) (by omega)

theorem remove_cons (c : Char) (t : Text) : remove ms (c :: t) =
    match ms.findSome? (·.here? (c :: t)) with
    | some x => remove ms x.2
    | none => c :: remove ms t := by
  unfold remove
  rw [List.length_cons, removeUpTo]
  cases hspan : ms.findSome? (·.here? (c :: t)) with
  | none => rfl
  | some x =>
    have hlt := length_lt_of_findSome? hms hspan
    rw [List.length_cons] at hlt
    exact removeUpTo_congr hms (by omega) le_rfl

theorem remove_of_isClear (h : ∀ m ∈ ms, IsClear m.opening t) (rest : Text) :
    remove ms (t ++ rest) = t ++ remove ms rest := by
  induction t with
  | nil => rfl
  | cons c t ih =>
    have hnone : ms.findSome? (·.here? (c :: (t ++ rest))) = none :=
      List.findSome?_eq_none_iff.2 fun m hm => here?_eq_none ((isClear_cons.1 (h m hm)).1 rest)
    rw [List.cons_append, remove_cons hms, hnone]
    simp only
    rw [ih fun m hm => (isClear_cons.1 (h m hm)).2]
    rfl

omit hms in
theorem findSome?_append (h : ∀ m ∈ ms, m.IsSettled t) (ht : t ≠ []) (rest : Text) :
    ms.findSome? (·.here? (t ++ rest)) =
      (ms.findSome? (·.here? t)).map fun x => (x.1, x.2 ++ rest) := by
  induction ms with
  | nil => rfl
  | cons m ms ih =>
    obtain ⟨hm, hms⟩ := List.forall_mem_cons.1 h
    rw [List.findSome?_cons, List.findSome?_cons, hm t (List.suffix_refl t) ht rest]
    cases m.here? t with
    | some x => rfl
    | none => exact ih hms

theorem remove_append : ∀ {t : Text}, (∀ m ∈ ms, m.IsSettled t) → ∀ rest : Text,
    remove ms (t ++ rest) = remove ms t ++ remove ms rest
  | [], _, rest => rfl
  | c :: t, h, rest => by
    have hspan := findSome?_append h (by simp) rest
    rw [List.cons_append] at hspan
    rw [List.cons_append, remove_cons hms, remove_cons hms, hspan]
    cases hfound : ms.findSome? (·.here? (c :: t)) with
    | none =>
      simp only [Option.map_none, List.cons_append]
      rw [remove_append (fun m hm => (h m hm).of_suffix (List.suffix_cons c t))]
    | some x =>
      have hlt := length_lt_of_findSome? hms hfound
      obtain ⟨m, hm, hhere⟩ := List.exists_of_findSome?_eq_some hfound
      exact remove_append (fun n hn => (h n hn).of_suffix (suffix_of_here? hhere)) rest
termination_by t => t.length
decreasing_by
  · exact Nat.lt_succ_self _
  · exact hlt

/-- A span is taken out whole when no other opening mark stands where it begins. -/
theorem remove_around (hm : m ∈ ms) (h : m.Encloses inside)
    (hother : ∀ n ∈ ms, ∀ t, n.opening <+: m.opening ++ t → n = m) (rest : Text) :
    remove ms (m.around inside ++ rest) = remove ms rest := by
  have hhere := here?_around h rest
  have hspan : ms.findSome? (·.here? (m.around inside ++ rest)) = some (inside, rest) := by
    obtain ⟨x, hx⟩ : ∃ x, ms.findSome? (·.here? (m.around inside ++ rest)) = some x :=
      Option.isSome_iff_exists.1 (List.findSome?_isSome_iff.2 ⟨m, hm, Option.isSome_of_eq_some hhere⟩)
    obtain ⟨n, hn, hnx⟩ := List.exists_of_findSome?_eq_some hx
    have hopen := eq_around_of_here? hnx
    rw [n.around_append, m.around_append] at hopen
    obtain rfl := hother n hn _ ⟨_, hopen.symm⟩
    rw [hx, ← hnx, hhere]
  obtain ⟨c, t, ht⟩ := (hms m hm).exists_around_eq_cons inside rest
  rw [ht] at hspan ⊢
  rw [remove_cons hms, hspan]

end

/-! ## Elements -/

/-- What a text says: itself without the blanks around it, unless there is nothing else. -/
def said? (t : Text) : Option Text := if trim t = [] then none else some (trim t)

def Marks.first? (m : Marks) (t : Text) : Option Text := (m.next? t).map (·.1)

/-- If an opening mark is not closed, no later one is. -/
theorem bind_cut?_eq_none {c : Char} {r : Text} (hm : m.closing ≠ [])
    (hafter : after? m.opening (c :: t) = some r) (hr : cut? m.closing r = none) :
    ((cut? m.opening t).bind fun x => cut? m.closing x.2) = none := by
  rw [Option.eq_none_iff_forall_not_mem]
  intro x hx
  obtain ⟨⟨a, b⟩, hopen, hclose⟩ := Option.bind_eq_some_iff.1 hx
  have hct := after?_eq_some_iff.1 hafter
  have ht := eq_append_of_cut? hopen
  have hb := eq_append_of_cut? hclose
  have hsuffix : b <:+ r := by
    have hlength := congrArg List.length hct
    have hbct : b <:+ c :: t := ⟨c :: (a ++ m.opening), by rw [ht]; simp⟩
    refine List.suffix_of_suffix_length_le hbct ⟨m.opening, hct.symm⟩ ?_
    simp only [ht, List.length_cons, List.length_append] at hlength
    omega
  refine (cut?_eq_none_iff hm).1 hr (List.IsInfix.trans ?_ hsuffix.isInfix)
  exact ⟨x.1, x.2, by rw [List.append_assoc, ← hb]⟩

theorem next?_eq_cut? (hm : m.closing ≠ []) : ∀ t : Text,
    m.next? t = (cut? m.opening t).bind fun x => cut? m.closing x.2
  | [] => by
    rw [Marks.next?, Marks.here?]
    cases m.opening <;> simp [after?, cut?]
  | c :: t => by
    rw [Marks.next?, Marks.here?, cut?, next?_eq_cut? hm t]
    cases hafter : after? m.opening (c :: t) with
    | none =>
      simp only [Option.bind_none]
      cases cut? m.opening t <;> rfl
    | some r =>
      simp only [Option.bind_some]
      cases hr : cut? m.closing r with
      | some x => rfl
      | none => exact bind_cut?_eq_none hm hafter hr

theorem first?_of_isClear (h : IsClear m.opening t) (rest : Text) :
    m.first? (t ++ rest) = m.first? rest := by
  rw [Marks.first?, next?_of_isClear h]
  rfl

theorem first?_append (hm : m.IsProper) (h : m.IsSettled t) (rest : Text) :
    m.first? (t ++ rest) = (m.first? t).or (m.first? rest) := by
  rw [Marks.first?, next?_append hm h, Option.map_or, Option.map_map]
  rfl

theorem first?_eq_none (hm : m.IsProper) (h : IsClear m.opening t) : m.first? t = none := by
  have hfirst := first?_of_isClear h []
  rwa [List.append_nil, Marks.first?, Marks.first?, next?_nil hm] at hfirst

theorem element?_eq (name t : Text) : element? name t = ((Marks.ofTag name).first? t).bind said? := by
  rw [element?, Marks.first?, next?_eq_cut? (tag_ne_nil _)]
  cases (cut? (Marks.ofTag name).opening t).bind fun x => cut? (Marks.ofTag name).closing x.2 <;> rfl

/-! ## Texts in pieces -/

section
variable {α : Type} {f : α → Text} {inside? : α → Option Text} {l : List α}

theorem isClear_flatMap {mark : Text} (h : ∀ x ∈ l, IsClear mark (f x)) :
    IsClear mark (l.flatMap f) := by
  induction l with
  | nil => exact isClear_nil mark
  | cons x l ih =>
    obtain ⟨hx, hl⟩ := List.forall_mem_cons.1 h
    exact hx.append (ih hl)

/-- Pieces of a text that are spans with the given insides, or clear of the opening mark. -/
structure Marks.Reads (m : Marks) (f : α → Text) (inside? : α → Option Text) (l : List α) : Prop where
  clear : ∀ x ∈ l, inside? x = none → IsClear m.opening (f x)
  span : ∀ x ∈ l, ∀ i, inside? x = some i → f x = m.around i ∧ m.Encloses i

theorem Marks.Reads.of_cons {x : α} (h : m.Reads f inside? (x :: l)) : m.Reads f inside? l :=
  ⟨fun y hy => h.clear y (List.mem_cons_of_mem x hy), fun y hy => h.span y (List.mem_cons_of_mem x hy)⟩

theorem Marks.Reads.first? (h : m.Reads f inside? l) (hm : m.IsProper) (rest : Text) :
    m.first? (l.flatMap f ++ rest) = (l.findSome? inside?).or (m.first? rest) := by
  induction l with
  | nil => simp
  | cons x l ih =>
    rw [List.flatMap_cons, List.append_assoc, List.findSome?_cons]
    cases hx : inside? x with
    | none =>
      rw [Marks.first?, next?_of_isClear (h.clear x List.mem_cons_self hx)]
      exact ih h.of_cons
    | some i =>
      obtain ⟨hf, hi⟩ := h.span x List.mem_cons_self i hx
      rw [Marks.first?, hf, next?_around hm hi]
      rfl

theorem Marks.Reads.insides (h : m.Reads f inside? l) (hm : m.IsProper) (rest : Text) :
    m.insides (l.flatMap f ++ rest) = l.filterMap inside? ++ m.insides rest := by
  induction l with
  | nil => rfl
  | cons x l ih =>
    rw [List.flatMap_cons, List.append_assoc]
    cases hx : inside? x with
    | none =>
      rw [insides_of_isClear hm (h.clear x List.mem_cons_self hx), List.filterMap_cons_none hx]
      exact ih h.of_cons
    | some i =>
      obtain ⟨hf, hi⟩ := h.span x List.mem_cons_self i hx
      rw [hf, insides_of_next? hm (next?_around hm hi _), List.filterMap_cons_some hx, ih h.of_cons]
      rfl

end

/-! ## What is left of a text -/

/-- Taking out spans leaves `t` of `s`, whatever follows. -/
def Erases (ms : List Marks) (s t : Text) : Prop :=
  ∀ rest, remove ms (s ++ rest) = t ++ remove ms rest

theorem Erases.nil (ms : List Marks) : Erases ms [] [] := fun _ => rfl

theorem Erases.of_isClear (hms : ∀ m ∈ ms, m.IsProper) (h : ∀ m ∈ ms, IsClear m.opening t) :
    Erases ms t t :=
  remove_of_isClear hms h

theorem Erases.append {s s' t t' : Text} (hs : Erases ms s s') (ht : Erases ms t t') :
    Erases ms (s ++ t) (s' ++ t') := by
  intro rest
  rw [List.append_assoc, hs, ht, List.append_assoc]

theorem Erases.flatMap {α : Type} {f g : α → Text} {l : List α}
    (h : ∀ x ∈ l, Erases ms (f x) (g x)) : Erases ms (l.flatMap f) (l.flatMap g) := by
  induction l with
  | nil => exact .nil ms
  | cons x l ih =>
    obtain ⟨hx, hl⟩ := List.forall_mem_cons.1 h
    exact hx.append (ih hl)

theorem Erases.of_isSettled (hms : ∀ m ∈ ms, m.IsProper) (h : ∀ m ∈ ms, m.IsSettled t) :
    Erases ms t (remove ms t) :=
  remove_append hms h

theorem Erases.remove_eq {s t : Text} (h : Erases ms s t) : remove ms s = t := by
  have hnil := h []
  rwa [List.append_nil, show remove ms [] = [] from rfl, List.append_nil] at hnil

end ModuleRules.Markup
