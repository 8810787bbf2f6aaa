import Mathlib.Tactic.Common
import ModuleRules.Identity
import ModuleRules.Proofs.Text.Segment

/-!
# References that read back

A reference whose name and slot are segments is what its text is read as
(`read_text`), and so is every reference that was read and has a name.
-/

namespace ModuleRules

open Text

namespace ModuleRef

structure IsSound (r : ModuleRef) : Prop where
  name : IsSegment r.name
  slot : ∀ s ∈ r.slot, IsSegment s

theorem slotOfPiece_eq {piece : Text} :
    slotOfPiece piece = if trim piece = [] then none else some (trim piece) := by
  unfold slotOfPiece
  split
  next h => simp [h]
  next h => simp [h]

theorem isSound_read {t : Text} (h : (read t).name ≠ []) : (read t).IsSound := by
  unfold read at *
  split at h
  next => exact absurd rfl h
  next name hsplit =>
    exact ⟨isSegment_trim (t := trim t) (by simp [hsplit]) h, by simp⟩
  next name slot _ hsplit =>
    refine ⟨isSegment_trim (t := trim t) (by simp [hsplit]) h, fun s hs => ?_⟩
    rw [slotOfPiece_eq] at hs
    split at hs
    next => cases hs
    next hne =>
      cases hs
      exact isSegment_trim (t := trim t) (by simp [hsplit]) hne

theorem IsSound.trim_text {r : ModuleRef} (h : r.IsSound) : trim r.text = r.text := by
  obtain ⟨name, slot⟩ := r
  cases slot with
  | none => exact h.name.trim_eq
  | some s => simpa [text] using trim_eq_self_of_segments (m := [':']) h.name (h.slot s rfl)

theorem IsSound.read_text {r : ModuleRef} (h : r.IsSound) : read r.text = r := by
  have htrim := h.trim_text
  obtain ⟨name, slot⟩ := r
  unfold read
  rw [htrim]
  cases slot with
  | none => simp [text, split_of_not_mem h.name.no_colon, h.name.trim_eq]
  | some s =>
    have hs : IsSegment s := h.slot s rfl
    simp [text, split_append _ h.name.no_colon, split_of_not_mem hs.no_colon, slotOfPiece_eq,
      h.name.trim_eq, hs.trim_eq, hs.ne_nil]

/-- Reading brings in no character but the colon. -/
theorem not_mem_text_read {c : Char} {t : Text} (hc : c ≠ ':') (ht : c ∉ t) :
    c ∉ (read t).text := by
  have hpiece {p : Text} (hp : p ∈ split ':' (trim t)) : c ∉ trim p := fun h =>
    ht ((trim_sublist t).mem (mem_of_mem_split hp ((trim_sublist p).mem h)))
  unfold read
  split
  next => simp [text]
  next name hsplit => exact hpiece (by simp [hsplit])
  next name slot _ hsplit =>
    have hname : c ∉ trim name := hpiece (by simp [hsplit])
    have hslot : c ∉ trim slot := hpiece (by simp [hsplit])
    rw [slotOfPiece_eq]
    by_cases h : trim slot = []
    · simpa [text, h] using hname
    · simp [text, h, hc, hname, hslot]

theorem not_mem_text_identity {c : Char} {r : ModuleRef} (hmain : c ∉ ':' :: mainSlot)
    (hr : c ∉ r.text) : c ∉ r.identity.text := by
  obtain ⟨name, slot⟩ := r
  cases slot with
  | none => exact fun h => (List.mem_append.1 h).elim hr hmain
  | some s =>
    cases s with
    | nil =>
      refine fun h => (List.mem_append.1 h).elim (fun h => hr ?_) hmain
      exact List.mem_append_left _ h
    | cons d s => exact hr

end ModuleRef

namespace ModuleId

structure IsSound (id : ModuleId) : Prop where
  name : IsSegment id.name
  slot : IsSegment id.slot

def ref (id : ModuleId) : ModuleRef := ⟨id.name, some id.slot⟩

theorem IsSound.ref {id : ModuleId} (h : id.IsSound) : id.ref.IsSound :=
  ⟨h.name, fun _ hs => Option.some.inj hs ▸ h.slot⟩

theorem identity_ref_of_slot {id : ModuleId} (h : id.slot ≠ []) : id.ref.identity = id := by
  obtain ⟨c, s, hs⟩ := List.exists_cons_of_ne_nil h
  obtain ⟨name, slot⟩ := id
  obtain rfl : slot = c :: s := hs
  rfl

theorem IsSound.identity_ref {id : ModuleId} (h : id.IsSound) : id.ref.identity = id :=
  identity_ref_of_slot h.slot.ne_nil

end ModuleId

theorem ModuleRef.IsSound.identity {r : ModuleRef} (h : r.IsSound) : r.identity.IsSound := by
  obtain ⟨name, slot⟩ := r
  cases slot with
  | none =>
    have hmain : IsSegment mainSlot := by decide
    exact ⟨h.name, hmain⟩
  | some s =>
    have hs : IsSegment s := h.slot s rfl
    obtain ⟨c, s', rfl⟩ := List.exists_cons_of_ne_nil hs.ne_nil
    exact ⟨h.name, hs⟩

end ModuleRules
