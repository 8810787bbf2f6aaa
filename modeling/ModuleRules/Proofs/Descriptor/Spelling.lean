import ModuleRules.Proofs.Artifact.Spelling
import ModuleRules.Proofs.Descriptor.Revision

/-!
# Artifacts that stay as they were read

Both texts of a revision spell the artifacts of the file anew. Each artifact
that the rules leave is read again from the new spelling, unless the file hid
the last brace of an expression behind colons (`parse?_written_iff`).
-/

namespace ModuleRules

open Text

theorem exists_getElem?_of_forall₂ {α β : Type} {R : α → β → Prop} {xs : List α} {ys : List β}
    (h : List.Forall₂ R xs ys) {i : Nat} {x : α} (hx : xs[i]? = some x) :
    ∃ y, ys[i]? = some y ∧ R x y := by
  induction h generalizing i with
  | nil => cases hx
  | cons hxy _ ih =>
    cases i with
    | zero =>
      cases hx
      exact ⟨_, rfl, hxy⟩
    | succ i => exact ih hx

/-- No text that is read as the coordinate is masked. -/
def Coordinate.IsUnmasked (c : Coordinate) : Prop :=
  ∀ t, Coordinate.parse t = .ok c → ¬ IsMasked t

theorem Coordinate.isUnmasked_iff {t : Text} {c : Coordinate} (h : Coordinate.parse t = .ok c) :
    c.IsUnmasked ↔ Coordinate.parse c.text = .ok c :=
  ⟨fun hc => (parse_text_iff_of_parse h).2 (hc t h),
    fun hc _ hu => (parse_text_iff_of_parse hu).1 hc⟩

namespace Descriptor

variable {d e : Descriptor}

theorem artifact_of_render (h : parse? d.render = some e) {i : Nat} {c : Coordinate}
    (hc : d.resources[i]? = some (.artifact c)) :
    e.resources[i]? = some (.artifact c) ↔ Coordinate.parse c.text = .ok c := by
  rw [parse?, parse?_toJson_of_render] at h
  have hreads : d.ReadsAs e := ofJson?_toJson.1 h
  obtain ⟨r, hr, hread⟩ := exists_getElem?_of_forall₂ hreads.resources hc
  cases hread with
  | artifact hparse => simp [hr, hparse]

end Descriptor

namespace Revision

/-- The texts of the revision of `d`, each with the descriptor that it is written of. -/
inductive Writes (store : RuleStore) (d : Descriptor) (rev : Revision) : Descriptor → Text → Prop
  | before : Writes store d rev d rev.before
  | after {new : Text} (h : rev.after = some new) : Writes store d rev (store.amend d).1 new

theorem Writes.eq_render {store : RuleStore} {d x : Descriptor} {w : Text}
    (h : (of store d).Writes store d x w) : w = x.render := by
  cases h with
  | before => rfl
  | after hnew => exact after_of hnew

/-- **What was read is read again** unless it was masked: a coordinate from its text, and an
artifact of a descriptor from where a revision writes it. An artifact with a version of the rules
reads back if its text does. -/
theorem parse?_written_iff {t : Text} {c : Coordinate} (h : Coordinate.parse t = .ok c) :
    (Coordinate.parse c.text = .ok c ↔ ¬ Coordinate.IsMasked t) ∧
    ∀ tree store path rev, ofFile tree store path = .ok rev → ∃ text d,
      tree.readText path = .ok text ∧ Descriptor.parse? text = some d ∧
      (∀ c, .artifact c ∈ d.resources → ∃ t, Coordinate.parse t = .ok c) ∧
      ∀ x w, rev.Writes store d x w →
        (Descriptor.parse? w = some x ↔ ∀ c, .artifact c ∈ x.resources →
          if Resource.artifact c ∈ d.resources then c.IsUnmasked
          else Coordinate.parse c.text = .ok c) ∧
        ∀ (e : Descriptor) (i : Nat), Descriptor.parse? w = some e →
          x.resources[i]? = some (.artifact c) →
            (e.resources[i]? = some (.artifact c) ↔ ¬ Coordinate.IsMasked t) := by
  refine ⟨Coordinate.parse_text_iff_of_parse h, fun tree store path rev hrev => ?_⟩
  obtain ⟨text, d, htext, hd, rfl⟩ := ofFile_eq_ok.1 hrev
  have hread (c : Coordinate) (hc : .artifact c ∈ d.resources) :
      ∃ t, Coordinate.parse t = .ok c := Descriptor.exists_parse_of_parse? hd hc
  refine ⟨text, d, htext, hd, hread, fun x w hw => ?_⟩
  rw [hw.eq_render]
  constructor
  · rw [Descriptor.parse?_render_iff, ← Descriptor.readsAs_self, Descriptor.readsAs_self_iff]
    refine forall₂_congr fun c _ => ?_
    split
    next hc =>
      obtain ⟨u, hu⟩ := hread c hc
      exact (Coordinate.isUnmasked_iff hu).symm
    next => exact Iff.rfl
  · intro e i he hi
    rw [← Coordinate.parse_text_iff_of_parse h]
    exact Descriptor.artifact_of_render he hi

theorem parse?_written_of_padded :
    let text : Text :=
      "\x7b\"name\":\"foo\",\"resources\":[\x7b\"artifact\":\" g : a : 1 : \"\x7d]\x7d"
    let tree : FileTree := ⟨[(["module.json"], .file (Utf8.encode text))], []⟩
    let sources : List (Text × Text) := [("a.conf", "module:foo\ninclude:b\n")]
    let read : Descriptor := ⟨⟨"foo", none⟩, [.artifact ⟨"g", "a", some "1", none, false⟩], []⟩
    let amended : Descriptor := { read with dependencies := [⟨⟨"b", none⟩, false, false⟩] }
    ∃ l rev new, Loaded.addTexts Properties.none sources {} = .ok l ∧
      ofFile tree l.store "module.json" = .ok rev ∧ rev.after = some new ∧
        Descriptor.parse? rev.before = some read ∧ Descriptor.parse? new = some amended := by
  intro text tree sources read amended
  have hread : tree.readText "module.json" = .ok text := by decide +kernel
  have hparse : Descriptor.parse? text = some read := by decide +kernel
  obtain ⟨l, hl, hamend⟩ : ∃ l, Loaded.addTexts Properties.none sources {} = .ok l ∧
      l.store.amend read = (amended, [⟨"include", "Add dependency b"⟩]) := ⟨_, rfl, rfl⟩
  have hrev := ofFile_of_amend hread hparse hamend
  have hspelled : Coordinate.parse " g : a : 1 : " = .ok ⟨"g", "a", some "1", none, false⟩ := by
    decide
  obtain ⟨-, hrevision⟩ := parse?_written_iff hspelled
  obtain ⟨text', d, htext, hd, -, hwritten⟩ := hrevision tree l.store "module.json" _ hrev
  rw [hread] at htext
  cases htext
  rw [hparse] at hd
  cases hd
  have hunmasked : Coordinate.IsUnmasked ⟨"g", "a", some "1", none, false⟩ := fun t ht =>
    (parse?_written_iff ht).1.1 (by decide)
  have hbefore := (hwritten _ _ .before).1
  have hafter := (hwritten _ _ (.after rfl)).1
  rw [hamend] at hafter
  refine ⟨l, _, _, hl, hrev, rfl, hbefore.2 fun c hc => ?_, hafter.2 fun c hc => ?_⟩ <;>
  · cases List.mem_singleton.1 hc
    rw [if_pos (List.mem_singleton.2 rfl)]
    exact hunmasked

theorem parse?_before_of_masked :
    let turned : Coordinate := ⟨"$\x7bg", "a\x7d", none, none, false⟩
    let void : Coordinate := ⟨"$\x7b", "a\x7d", none, none, false⟩
    let text : Text :=
      "\x7b\"name\":\"foo\",\"resources\":[\x7b\"artifact\":\"$\x7b:a\x7d:\"\x7d]\x7d"
    let tree : FileTree := ⟨[(["module.json"], .file (Utf8.encode text))], []⟩
    (Coordinate.parse "$\x7bg:a\x7d:" = .ok turned ∧
      Coordinate.parse turned.text = .ok ⟨"g", "a", none, none, true⟩) ∧
    (Coordinate.parse "$\x7b:a\x7d:" = .ok void ∧
      Coordinate.parse void.text = .error (.emptySegment "$\x7b:a\x7d")) ∧
    Descriptor.parse? text = some ⟨⟨"foo", none⟩, [.artifact void], []⟩ ∧
      ∃ rev, ofFile tree {} "module.json" = .ok rev ∧ Descriptor.parse? rev.before = none := by
  intro turned void text tree
  have hread : tree.readText "module.json" = .ok text := by decide +kernel
  have hparse : Descriptor.parse? text = some ⟨⟨"foo", none⟩, [.artifact void], []⟩ := by
    decide +kernel
  refine ⟨by decide, by decide, hparse, _, ofFile_eq_ok.2 ⟨text, _, hread, hparse, rfl⟩, ?_⟩
  decide +kernel

end Revision

end ModuleRules
