import Mathlib.Data.List.Forall2
import ModuleRules.Descriptor.Json
import ModuleRules.Proofs.Artifact.Coordinate
import ModuleRules.Proofs.Json.Layout

/-!
# Descriptors read back

A descriptor is read back from what was written of it when the coordinates of
its artifacts are stable (`parse?_render_iff`). All else always reads back.
-/

namespace ModuleRules

/-! ## Entries -/

def Resource.IsStable : Resource → Prop
  | artifact c => c.IsStable
  | root _ => True

theorem Resource.ofJson?_artifact (c : Coordinate) :
    Resource.ofJson? (artifact c).toJson = (Coordinate.parse c.text).toOption.map artifact := by
  have hfields : (artifact c).toJson = .object [(some "artifact", .text c.text)] := rfl
  have hdepth : (artifact c).toJson.depth = 1 := rfl
  have hcoordinate : Json.field? [(some "artifact".toList, Json.text c.text)] "artifact" none
      (fun j => do (Coordinate.parse (← j.text?)).toOption) =
        (Coordinate.parse c.text).toOption := rfl
  have hpath : Json.field? [(some "artifact".toList, Json.text c.text)] "path" none Json.text? =
      none := rfl
  unfold Resource.ofJson?
  rw [if_pos ⟨rfl, by rw [hdepth]; decide⟩, hfields]
  simp only [hcoordinate, hpath]
  cases (Coordinate.parse c.text).toOption <;> rfl

/-- The second is read where the first was written. -/
inductive Resource.ReadsAs : Resource → Resource → Prop
  | artifact {c c' : Coordinate} (h : Coordinate.parse c.text = .ok c') :
    ReadsAs (artifact c) (artifact c')
  | root (path : Text) : ReadsAs (root path) (root path)

theorem Resource.ofJson?_toJson {r r' : Resource} :
    Resource.ofJson? r.toJson = some r' ↔ r.ReadsAs r' := by
  cases r with
  | root path =>
    have hread : Resource.ofJson? (root path).toJson = some (root path) := rfl
    rw [hread]
    constructor
    · rintro ⟨⟩
      exact .root path
    · rintro ⟨⟩
      rfl
  | artifact c =>
    rw [ofJson?_artifact]
    constructor
    · intro h
      cases hparse : Coordinate.parse c.text with
      | error e => simp [hparse, Except.toOption] at h
      | ok c' =>
        rw [hparse] at h
        cases h
        exact .artifact hparse
    · rintro ⟨h⟩
      rw [h]
      rfl

theorem Resource.readsAs_self {r : Resource} : r.ReadsAs r ↔ r.IsStable := by
  cases r with
  | root path => exact iff_of_true (.root path) trivial
  | artifact c =>
    rw [IsStable, ← c.parse_text_iff]
    constructor
    · rintro ⟨h⟩
      exact h
    · exact .artifact

theorem Dependency.ofJson?_toJson (d : Dependency) : Dependency.ofJson? d.toJson = some d := by
  obtain ⟨⟨name, slot⟩, optional, exported⟩ := d
  cases slot <;> cases optional <;> cases exported <;> rfl

theorem Dependency.toJson_injective : Function.Injective Dependency.toJson := by
  intro d e h
  have hd := d.ofJson?_toJson
  rw [h, e.ofJson?_toJson] at hd
  exact (Option.some.inj hd).symm

theorem Resource.isPlain_toJson (r : Resource) : r.toJson.isPlain = true := by
  cases r <;> rfl

theorem Dependency.isPlain_toJson (d : Dependency) : d.toJson.isPlain = true := by
  obtain ⟨⟨name, slot⟩, optional, exported⟩ := d
  cases slot <;> cases optional <;> cases exported <;> rfl

/-! ## Many entries -/

theorem mapM_map_eq_some_iff {α β γ : Type} {write : α → β} {read : β → Option γ} {xs : List α}
    {ys : List γ} : (xs.map write).mapM read = some ys ↔
      List.Forall₂ (fun x y => read (write x) = some y) xs ys := by
  induction xs generalizing ys with
  | nil => simp [eq_comm]
  | cons x xs ih =>
    simp only [List.map_cons, List.mapM_cons, Option.bind_eq_bind, Option.pure_def,
      Option.bind_eq_some_iff, ih, List.forall₂_cons_left_iff, Option.some.injEq]
    exact ⟨fun ⟨y, hy, zs, hzs, h⟩ => ⟨y, zs, hy, hzs, h.symm⟩,
      fun ⟨y, zs, hy, hzs, h⟩ => ⟨y, hy, zs, hzs, h.symm⟩⟩

theorem exists_of_mem_mapM {α β : Type} {read : α → Option β} :
    ∀ {xs : List α} {ys : List β}, xs.mapM read = some ys → ∀ y ∈ ys, ∃ x, read x = some y
  | [], ys, h, y, hy => by
    cases h
    cases hy
  | x :: xs, ys, h, y, hy => by
    simp only [List.mapM_cons, Option.bind_eq_bind, Option.pure_def, Option.bind_eq_some_iff] at h
    obtain ⟨z, hz, zs, hzs, heq⟩ := h
    cases heq
    rcases List.mem_cons.1 hy with rfl | hy
    · exact ⟨x, hz⟩
    · exact exists_of_mem_mapM hzs y hy

theorem itemsPlain_map {α : Type} {write : α → Json} (h : ∀ x, (write x).isPlain = true) :
    ∀ xs : List α, Json.itemsPlain (xs.map write) = true
  | [] => rfl
  | x :: xs => Bool.and_eq_true_iff.2 ⟨h x, itemsPlain_map h xs⟩

/-! ## Descriptors -/

namespace Descriptor

theorem isPlain_toJson (d : Descriptor) : d.toJson.isPlain = true := by
  have hresources := itemsPlain_map Resource.isPlain_toJson d.resources
  have hdependencies := itemsPlain_map Dependency.isPlain_toJson d.dependencies
  cases hslot : d.self.slot <;>
    simp [toJson, ModuleRef.jsonFields, hslot, Json.record, Json.field, Json.text, Json.isPlain,
      Json.fieldsPlain, hresources, hdependencies]

theorem ofJson?_toJson_eq (d : Descriptor) : ofJson? d.toJson =
    ((d.resources.map Resource.toJson).mapM Resource.ofJson?).bind fun resources =>
      ((d.dependencies.map Dependency.toJson).mapM Dependency.ofJson?).bind fun dependencies =>
        some ⟨d.self, resources, dependencies⟩ := by
  obtain ⟨⟨name, slot⟩, resources, dependencies⟩ := d
  cases slot <;> rfl

structure ReadsAs (d d' : Descriptor) : Prop where
  self : d'.self = d.self
  resources : List.Forall₂ Resource.ReadsAs d.resources d'.resources
  dependencies : d'.dependencies = d.dependencies

theorem ofJson?_toJson {d d' : Descriptor} : ofJson? d.toJson = some d' ↔ d.ReadsAs d' := by
  have hdependencies : (d.dependencies.map Dependency.toJson).mapM Dependency.ofJson? =
      some d.dependencies :=
    mapM_map_eq_some_iff.2 (List.forall₂_same.2 fun x _ => x.ofJson?_toJson)
  have hresources (rs : List Resource) :
      (d.resources.map Resource.toJson).mapM Resource.ofJson? = some rs ↔
        List.Forall₂ Resource.ReadsAs d.resources rs := by
    simp only [mapM_map_eq_some_iff, Resource.ofJson?_toJson]
  rw [ofJson?_toJson_eq, hdependencies]
  simp only [Option.bind_eq_some_iff, Option.some.injEq, exists_eq_left', hresources]
  constructor
  · rintro ⟨rs, hrs, rfl⟩
    exact ⟨rfl, hrs, rfl⟩
  · rintro ⟨hself, hrs, hdeps⟩
    exact ⟨d'.resources, hrs, by rw [← hself, ← hdeps]⟩

theorem readsAs_self {d : Descriptor} : d.ReadsAs d ↔ ∀ r ∈ d.resources, r.IsStable := by
  simp only [← Resource.readsAs_self, ← List.forall₂_same]
  exact ⟨ReadsAs.resources, fun h => ⟨rfl, h, rfl⟩⟩

theorem parse?_toJson_of_render (d : Descriptor) : Json.parse? d.render = some d.toJson :=
  Json.parse?_pretty d.isPlain_toJson (by simp [Json.Token.isSpace])

theorem parse?_render_iff (d : Descriptor) :
    parse? d.render = some d ↔ ∀ r ∈ d.resources, r.IsStable := by
  rw [← readsAs_self, ← ofJson?_toJson, parse?, parse?_toJson_of_render]
  rfl

theorem readsAs_self_iff {d : Descriptor} : d.ReadsAs d ↔
    ∀ c, .artifact c ∈ d.resources → Coordinate.parse c.text = .ok c := by
  rw [readsAs_self]
  constructor
  · intro h c hc
    exact c.parse_text_iff.2 (h _ hc)
  · intro h r hr
    cases r with
    | root path => trivial
    | artifact c => exact c.parse_text_iff.1 (h c hr)

/-- **A descriptor reads back from either layout**, with a newline behind it or not, if and only if
each of its coordinates does. What is read in any case has the same name, slot and dependencies,
and for each resource one of its kind, in the same order. -/
theorem parse?_write_iff (d : Descriptor) (layout : Json.Layout) :
    (parse? (layout.write d.toJson) = some d ↔
        ∀ c, .artifact c ∈ d.resources → Coordinate.parse c.text = .ok c) ∧
      (∀ d', parse? (layout.write d.toJson) = some d' ↔ d.ReadsAs d') ∧
      parse? d.render = parse? (layout.write d.toJson) := by
  have hread : parse? (layout.write d.toJson) = ofJson? d.toJson := by
    rw [parse?, layout.parse?_write d.isPlain_toJson]
    rfl
  refine ⟨?_, fun d' => ?_, ?_⟩
  · rw [hread, ofJson?_toJson, readsAs_self_iff]
  · rw [hread, ofJson?_toJson]
  · rw [hread, parse?, parse?_toJson_of_render]
    rfl

theorem toJson_eq_iff {d e : Descriptor} (h : d.self = e.self) : d.toJson = e.toJson ↔
    d.resources.map Resource.toJson = e.resources.map Resource.toJson ∧
      d.dependencies = e.dependencies := by
  have hdependencies : d.dependencies.map Dependency.toJson = e.dependencies.map Dependency.toJson ↔
      d.dependencies = e.dependencies := Dependency.toJson_injective.list_map.eq_iff
  rw [← hdependencies, toJson, toJson, h]
  simp [Json.record, Json.field]

/-- Descriptors are written alike only when they are the same JSON. -/
theorem render_eq_iff {d e : Descriptor} : d.render = e.render ↔ d.toJson = e.toJson := by
  constructor
  · intro h
    have hd := d.parse?_toJson_of_render
    rw [h, e.parse?_toJson_of_render] at hd
    exact (Option.some.inj hd).symm
  · intro h
    rw [render, h]
    rfl

end Descriptor

/-! ## What was read -/

theorem Json.field?_eq_some {α : Type} {fields : List (Option Text × Json)} {name : Text}
    {default : Option α} {read : Json → Option α} {a : α}
    (h : Json.field? fields name default read = some a) :
    default = some a ∨ ∃ j, read j = some a := by
  unfold Json.field? at h
  split at h
  next => exact .inl h
  next j _ => exact .inr ⟨j, h⟩
  next => cases h

theorem Resource.exists_parse_of_ofJson? {j : Json} {c : Coordinate}
    (h : Resource.ofJson? j = some (artifact c)) : ∃ t, Coordinate.parse t = .ok c := by
  unfold Resource.ofJson? at h
  split at h
  next =>
    split at h
    next fields _ =>
      simp only at h
      split at h
      next c' hc =>
        cases h
        rcases Json.field?_eq_some hc with hnone | ⟨i, hi⟩
        · cases hnone
        · obtain ⟨t, -, ht⟩ := Option.bind_eq_some_iff.1 hi
          cases hparse : Coordinate.parse t with
          | error => simp [hparse, Except.toOption] at ht
          | ok c'' =>
            rw [hparse] at ht
            cases ht
            exact ⟨t, hparse⟩
      next =>
        obtain ⟨path, -, hpath⟩ := Option.map_eq_some_iff.1 h
        cases hpath
    next => cases h
  next => cases h

/-- The coordinates of a descriptor were read from texts. -/
theorem Descriptor.exists_parse_of_parse? {t : Text} {d : Descriptor}
    (h : Descriptor.parse? t = some d) {c : Coordinate} (hc : .artifact c ∈ d.resources) :
    ∃ u, Coordinate.parse u = .ok c := by
  obtain ⟨j, -, hj⟩ := Option.bind_eq_some_iff.1 h
  simp only [ofJson?, Option.bind_eq_bind, Option.pure_def, Option.bind_eq_some_iff] at hj
  obtain ⟨fields, -, name, -, slot, -, resources, hresources, dependencies, -, hd⟩ := hj
  cases hd
  rcases Json.field?_eq_some hresources with hnone | ⟨i, hi⟩
  · cases hnone
    cases hc
  · obtain ⟨items, -, hitems⟩ := Option.bind_eq_some_iff.1 hi
    obtain ⟨x, hx⟩ := exists_of_mem_mapM hitems _ hc
    exact Resource.exists_parse_of_ofJson? hx

theorem Descriptor.isSound_of_parse? {t : Text} {d : Descriptor} (h : Descriptor.parse? t = some d)
    {c : Coordinate} (hc : .artifact c ∈ d.resources) : c.segments.IsSound :=
  (exists_parse_of_parse? h hc).elim fun _ => Coordinate.isSound_of_parse

end ModuleRules
