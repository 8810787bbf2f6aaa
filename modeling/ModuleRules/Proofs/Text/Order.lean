import ModuleRules.Identity
import ModuleRules.Proofs.Text.Utf8

/-!
# The order of texts and of their bytes

Of two characters the later one has the greater bytes, and no character's
bytes are the beginning of another's. So texts compare as what is written for
them (`encode_lt_encode_iff`), and identities by the bytes of the name and
then of the slot.
-/

namespace ModuleRules

theorem map_lt_map_iff {α β : Type} [LT α] [LT β] {f : α → β}
    (hlt : ∀ {a b}, f a < f b ↔ a < b) (hf : Function.Injective f) :
    ∀ {l m : List α}, l.map f < m.map f ↔ l < m
  | [], [] => by simp
  | [], b :: m => by simp
  | a :: l, [] => by simp
  | a :: l, b :: m => by
    rw [List.map_cons, List.map_cons, List.cons_lt_cons_iff, List.cons_lt_cons_iff,
      map_lt_map_iff hlt hf, hlt, hf.eq_iff]

namespace Text.Utf8

theorem map_toNat_lt_iff {bs cs : Bytes} : bs.map UInt8.toNat < cs.map UInt8.toNat ↔ bs < cs :=
  map_lt_map_iff UInt8.lt_iff_toNat_lt.symm fun _ _ => UInt8.toNat_inj.1

/-- Whatever follows them, the first bytes of two characters that differ decide. -/
theorem utf8EncodeChar_append_lt {c d : Char} (h : c < d) (bs cs : Bytes) :
    String.utf8EncodeChar c ++ bs < String.utf8EncodeChar d ++ cs := by
  have hlt : c.toNat < d.toNat := h
  have hc := toNat_lt c
  have hd := toNat_lt d
  rw [← map_toNat_lt_iff, List.map_append, List.map_append, toNat_utf8EncodeChar,
    toNat_utf8EncodeChar]
  generalize c.toNat = m at hlt hc ⊢
  generalize d.toNat = n at hlt hd ⊢
  -- one case for each pair of lengths, in each of which the numbers are compared byte by byte
  split_ifs <;> simp only [List.cons_append, List.nil_append, List.cons_lt_cons_iff] <;> omega

theorem encode_lt_of_lt : ∀ {t u : Text}, t < u → encode t < encode u
  | _, [], h => absurd h (List.not_lt_nil _)
  | [], d :: u, _ => by
    cases hd : encode (d :: u) with
    | nil =>
      rw [encode_eq_nil_iff] at hd
      cases hd
    | cons b bs => exact List.nil_lt_cons b bs
  | c :: t, d :: u, h => by
    rw [encode_cons, encode_cons]
    rcases List.cons_lt_cons_iff.1 h with hcd | ⟨rfl, htu⟩
    · exact utf8EncodeChar_append_lt hcd _ _
    · exact List.append_left_lt (encode_lt_of_lt htu)

/-- **Texts compare as their bytes do.** -/
theorem encode_lt_encode_iff {t u : Text} : encode t < encode u ↔ t < u := by
  refine ⟨fun h => ?_, encode_lt_of_lt⟩
  by_contra htu
  by_cases hut : u < t
  · exact List.lt_irrefl _ (List.lt_trans h (encode_lt_of_lt hut))
  · obtain rfl : t = u := List.le_antisymm hut htu
    exact List.lt_irrefl _ h

theorem encode_injective : Function.Injective encode := by
  intro t u h
  have ht := decode?_encode t
  rw [h, decode?_encode] at ht
  exact (Option.some.inj ht).symm

end Text.Utf8

namespace ModuleId

/-- One identity comes before another by the bytes of its name, or of equal names by those of its
slot. -/
def IsBefore (a b : ModuleId) : Prop :=
  Text.Utf8.encode a.name < Text.Utf8.encode b.name ∨
    Text.Utf8.encode a.name = Text.Utf8.encode b.name ∧
      Text.Utf8.encode a.slot < Text.Utf8.encode b.slot

theorem isBefore_iff {a b : ModuleId} : a.IsBefore b ↔ a < b := by
  unfold IsBefore
  rw [Text.Utf8.encode_lt_encode_iff, Text.Utf8.encode_lt_encode_iff,
    Text.Utf8.encode_injective.eq_iff]
  rfl

end ModuleId

end ModuleRules
