import Mathlib.Data.List.Basic
import ModuleRules.Proofs.Text.Line
import ModuleRules.Text.Utf8

/-!
# Reading what is written in UTF-8

Bytes are read as a text exactly when they are what is written for it
(`decode?_eq_some_iff`). The byte of a line feed is written for nothing else,
so cutting bytes at it cuts the text at its line feeds.
-/

namespace ModuleRules.Text.Utf8

/-! ## One character -/

theorem scalar?_eq_some_iff {least n : Nat} {c : Char} :
    scalar? least n = some c ↔ least ≤ n ∧ c.toNat = n := by
  unfold scalar?
  split
  next h =>
    rw [Option.some.injEq]
    constructor
    · rintro rfl
      refine ⟨h.1, ?_⟩
      rw [Char.ofNat, dif_pos h.2]
      rfl
    · rintro ⟨-, rfl⟩
      exact Char.ofNat_toNat c
  next h =>
    refine iff_of_false (by simp) ?_
    rintro ⟨hle, rfl⟩
    exact h ⟨hle, c.valid⟩

theorem tail?_eq_some_iff {b : UInt8} {n : Nat} :
    tail? b = some n ↔ 0x80 ≤ b.toNat ∧ b.toNat ≤ 0xBF ∧ n = b.toNat - 0x80 := by
  simp [tail?, UInt8.le_iff_toNat_le, and_assoc, eq_comm]

theorem toNat_lt (c : Char) : c.toNat < 0x110000 := by
  have h : c.toNat < 0xD800 ∨ 0xDFFF < c.toNat ∧ c.toNat < 0x110000 := c.valid
  omega

/-- The bytes of a character as numbers. -/
theorem toNat_utf8EncodeChar (c : Char) :
    (String.utf8EncodeChar c).map UInt8.toNat =
      if c.toNat ≤ 0x7F then [c.toNat]
      else if c.toNat ≤ 0x7FF then [c.toNat / 64 + 0xC0, c.toNat % 64 + 0x80]
      else if c.toNat ≤ 0xFFFF then
        [c.toNat / 4096 + 0xE0, c.toNat / 64 % 64 + 0x80, c.toNat % 64 + 0x80]
      else [c.toNat / 262144 + 0xF0, c.toNat / 4096 % 64 + 0x80, c.toNat / 64 % 64 + 0x80,
        c.toNat % 64 + 0x80] := by
  have hlt := toNat_lt c
  have hval : c.val.toNat = c.toNat := rfl
  simp only [String.utf8EncodeChar, hval]
  generalize c.toNat = n at hlt ⊢
  split_ifs <;>
    simp only [List.map_cons, List.map_nil, UInt8.toNat_ofNat', List.cons.injEq, and_true] <;> omega

theorem utf8EncodeChar_eq_iff {c : Char} {bs : Bytes} : String.utf8EncodeChar c = bs ↔
    (String.utf8EncodeChar c).map UInt8.toNat = bs.map UInt8.toNat :=
  (List.map_injective_iff.2 fun _ _ => UInt8.toNat_inj.1).eq_iff.symm

theorem one_iff {a : UInt8} {x : Char} (ha : a.toNat < 0x80) :
    Char.ofNat a.toNat = x ↔ String.utf8EncodeChar x = [a] := by
  have hvalid : a.toNat.isValidChar := .inl (by omega)
  have hchar := @scalar?_eq_some_iff 0 a.toNat x
  rw [scalar?, if_pos ⟨Nat.zero_le _, hvalid⟩, Option.some.injEq] at hchar
  rw [hchar, utf8EncodeChar_eq_iff, toNat_utf8EncodeChar]
  split_ifs <;> simp <;> omega

theorem two?_eq_some_iff {a b : UInt8} {x : Char} (ha : 0xC0 ≤ a.toNat) (ha' : a.toNat < 0xE0) :
    two? a b = some x ↔ String.utf8EncodeChar x = [a, b] := by
  simp only [two?, bind, Option.bind_eq_some_iff, tail?_eq_some_iff, scalar?_eq_some_iff]
  rw [utf8EncodeChar_eq_iff, toNat_utf8EncodeChar]
  split_ifs <;> simp <;> omega

theorem three?_eq_some_iff {a b c : UInt8} {x : Char} (ha : 0xE0 ≤ a.toNat)
    (ha' : a.toNat < 0xF0) : three? a b c = some x ↔ String.utf8EncodeChar x = [a, b, c] := by
  simp only [three?, bind, Option.bind_eq_some_iff, tail?_eq_some_iff, scalar?_eq_some_iff]
  rw [utf8EncodeChar_eq_iff, toNat_utf8EncodeChar]
  split_ifs <;> simp <;> omega

theorem four?_eq_some_iff {a b c d : UInt8} {x : Char} (ha : 0xF0 ≤ a.toNat) :
    four? a b c d = some x ↔ String.utf8EncodeChar x = [a, b, c, d] := by
  have hx := toNat_lt x
  simp only [four?, bind, Option.bind_eq_some_iff, tail?_eq_some_iff, scalar?_eq_some_iff]
  rw [utf8EncodeChar_eq_iff, toNat_utf8EncodeChar]
  split_ifs <;> simp <;> omega

/-- A character is written in one to four bytes, and the first tells how many. -/
theorem utf8EncodeChar_cases (x : Char) :
    (∃ a, String.utf8EncodeChar x = [a] ∧ a.toNat < 0x80) ∨
      (∃ a b, String.utf8EncodeChar x = [a, b] ∧ 0xC0 ≤ a.toNat ∧ a.toNat < 0xE0) ∨
      (∃ a b c, String.utf8EncodeChar x = [a, b, c] ∧ 0xE0 ≤ a.toNat ∧ a.toNat < 0xF0) ∨
      ∃ a b c d, String.utf8EncodeChar x = [a, b, c, d] ∧ 0xF0 ≤ a.toNat := by
  have h := toNat_utf8EncodeChar x
  generalize String.utf8EncodeChar x = bs at h ⊢
  split_ifs at h
  · obtain _ | ⟨a, _ | ⟨_, _⟩⟩ := bs <;> simp at h
    exact .inl ⟨a, rfl, by omega⟩
  · obtain _ | ⟨a, _ | ⟨b, _ | ⟨_, _⟩⟩⟩ := bs <;> simp at h
    exact .inr (.inl ⟨a, b, rfl, by omega, by omega⟩)
  · obtain _ | ⟨a, _ | ⟨b, _ | ⟨c, _ | ⟨_, _⟩⟩⟩⟩ := bs <;> simp at h
    exact .inr (.inr (.inl ⟨a, b, c, rfl, by omega, by omega⟩))
  · obtain _ | ⟨a, _ | ⟨b, _ | ⟨c, _ | ⟨d, _ | ⟨_, _⟩⟩⟩⟩⟩ := bs <;> simp at h
    exact .inr (.inr (.inr ⟨a, b, c, d, rfl, by omega⟩))

/-! ## Texts -/

theorem encode_cons (x : Char) (t : Text) : encode (x :: t) = String.utf8EncodeChar x ++ encode t :=
  List.flatMap_cons

theorem encode_append (t u : Text) : encode (t ++ u) = encode t ++ encode u := List.flatMap_append

theorem decode?_append (x : Char) (bs : Bytes) :
    decode? (String.utf8EncodeChar x ++ bs) = (decode? bs).map (x :: ·) := by
  rcases utf8EncodeChar_cases x with ⟨a, hx, ha⟩ | ⟨a, b, hx, ha, ha'⟩ | ⟨a, b, c, hx, ha, ha'⟩ |
    ⟨a, b, c, d, hx, ha⟩
  · rw [hx, List.singleton_append, decode?.eq_def]
    simp [UInt8.lt_iff_toNat_lt, ha, (one_iff ha).2 hx]
  · have h1 : ¬ a.toNat < 0x80 := by omega
    have h2 : ¬ a.toNat < 0xC0 := by omega
    simp [hx, decode?, UInt8.lt_iff_toNat_lt, h1, h2, ha', (two?_eq_some_iff ha ha').2 hx]
  · have h1 : ¬ a.toNat < 0x80 := by omega
    have h2 : ¬ a.toNat < 0xC0 := by omega
    have h3 : ¬ a.toNat < 0xE0 := by omega
    simp [hx, decode?, UInt8.lt_iff_toNat_lt, h1, h2, h3, ha', (three?_eq_some_iff ha ha').2 hx]
  · have h1 : ¬ a.toNat < 0x80 := by omega
    have h2 : ¬ a.toNat < 0xC0 := by omega
    have h3 : ¬ a.toNat < 0xE0 := by omega
    have h4 : ¬ a.toNat < 0xF0 := by omega
    simp [hx, decode?, UInt8.lt_iff_toNat_lt, h1, h2, h3, h4, (four?_eq_some_iff ha).2 hx]

theorem decode?_encode : ∀ t : Text, decode? (encode t) = some t
  | [] => rfl
  | x :: t => by rw [encode_cons, decode?_append, decode?_encode t, Option.map_some]

theorem encode_eq_nil_iff {t : Text} : encode t = [] ↔ t = [] := by
  refine ⟨fun h => ?_, fun h => by rw [h]; rfl⟩
  have hread := decode?_encode t
  rw [h] at hread
  exact (Option.some.inj hread).symm

/-- A character that was read and what was read after it. -/
theorem append_eq_encode (head : Bytes) {r : Bytes} {o : Option Char} {t : Text}
    (ho : ∀ x, o = some x → String.utf8EncodeChar x = head)
    (hr : ∀ {u : Text}, decode? r = some u → r = encode u)
    (h : (o.bind fun x => (decode? r).map (x :: ·)) = some t) : head ++ r = encode t := by
  obtain ⟨x, hx, h⟩ := Option.bind_eq_some_iff.1 h
  obtain ⟨u, hu, rfl⟩ := Option.map_eq_some_iff.1 h
  rw [encode_cons, ho x hx, ← hr hu]

theorem eq_encode_of_decode? {bs : Bytes} {t : Text} (h : decode? bs = some t) :
    bs = encode t := by
  fun_induction decode? bs generalizing t with
  | case1 =>
    cases h
    rfl
  | case2 a r ha ih =>
    refine append_eq_encode [a] (o := some (Char.ofNat a.toNat)) ?_ ih h
    rintro x ⟨⟩
    exact (one_iff (UInt8.lt_iff_toNat_lt.1 ha)).1 rfl
  | case4 a _ hlow hhigh b r ih =>
    refine append_eq_encode [a, b] (fun x hx => ?_) ih h
    rw [UInt8.lt_iff_toNat_lt] at hlow hhigh
    exact (two?_eq_some_iff (Nat.le_of_not_lt hlow) hhigh).1 hx
  | case6 a _ _ hlow hhigh b c r ih =>
    refine append_eq_encode [a, b, c] (fun x hx => ?_) ih h
    rw [UInt8.lt_iff_toNat_lt] at hlow hhigh
    exact (three?_eq_some_iff (Nat.le_of_not_lt hlow) hhigh).1 hx
  | case8 a _ _ _ hlow b c d r ih =>
    refine append_eq_encode [a, b, c, d] (fun x hx => ?_) ih h
    rw [UInt8.lt_iff_toNat_lt] at hlow
    exact (four?_eq_some_iff (Nat.le_of_not_lt hlow)).1 hx
  | case3 | case5 | case7 | case9 => cases h

/-- **Reading undoes writing**, and reads nothing that is not written so. -/
theorem decode?_eq_some_iff {bs : Bytes} {t : Text} : decode? bs = some t ↔ bs = encode t :=
  ⟨eq_encode_of_decode?, fun h => h ▸ decode?_encode t⟩

theorem decode?_eq_none_iff {bs : Bytes} : decode? bs = none ↔ ∀ t, bs ≠ encode t := by
  simp [Option.eq_none_iff_forall_ne_some, decode?_eq_some_iff]

/-! ## Line feeds -/

theorem mem_utf8EncodeChar {x : Char} : 10 ∈ String.utf8EncodeChar x ↔ x = '\n' := by
  have hinj : Function.Injective UInt8.toNat := fun _ _ => UInt8.toNat_inj.1
  have hx : x = '\n' ↔ x.toNat = 10 := by
    constructor
    · rintro rfl
      rfl
    · intro h
      rw [← Char.ofNat_toNat x, h]
  rw [hx, ← List.mem_map_of_injective hinj, toNat_utf8EncodeChar]
  change 10 ∈ _ ↔ _
  split_ifs <;> simp <;> omega

theorem mem_encode {t : Text} : 10 ∈ encode t ↔ '\n' ∈ t := by
  simp [encode, mem_utf8EncodeChar]

theorem encode_append_feed (t u : Text) : encode (t ++ '\n' :: u) = encode t ++ 10 :: encode u := by
  rw [encode_append, encode_cons]
  rfl

theorem splitLines_ne_nil : ∀ bs : Bytes, splitLines bs ≠ []
  | [] => by simp [splitLines]
  | b :: r => by
    unfold splitLines
    split
    next => simp
    next => split <;> simp

theorem splitLines_of_not_mem : ∀ {p : Bytes}, 10 ∉ p → splitLines p = [p]
  | [], _ => rfl
  | b :: r, h => by
    obtain ⟨hb, hr⟩ := List.ne_and_not_mem_of_not_mem_cons h
    rw [splitLines, if_neg (Ne.symm hb), splitLines_of_not_mem hr]

theorem splitLines_append (bs : Bytes) :
    ∀ {p : Bytes}, 10 ∉ p → splitLines (p ++ 10 :: bs) = p :: splitLines bs
  | [], _ => if_pos rfl
  | b :: r, h => by
    obtain ⟨hb, hr⟩ := List.ne_and_not_mem_of_not_mem_cons h
    rw [List.cons_append, splitLines, if_neg (Ne.symm hb), splitLines_append bs hr]

theorem exists_append_of_feed : ∀ bs : Bytes, ∃ p r, 10 ∉ p ∧ bs = p ++ r ∧ ∀ b ∈ r.head?, b = 10
  | [] => ⟨[], [], by simp, rfl, by simp⟩
  | b :: bs => by
    by_cases hb : b = 10
    · exact ⟨[], b :: bs, by simp, rfl, by simp [hb]⟩
    · obtain ⟨p, r, hp, rfl, hr⟩ := exists_append_of_feed bs
      exact ⟨b :: p, r, by simp [Ne.symm hb, hp], rfl, hr⟩

/-- Bytes are those of a text, or there is a first line whose bytes are not. -/
theorem exists_text_or_bad_line (bs : Bytes) : (∃ t, bs = encode t) ∨
    ∃ (qs : List Text) (bad r : Bytes), (∀ q ∈ qs, '\n' ∉ q) ∧
      bs = encode (unlines qs) ++ (bad ++ r) ∧ 10 ∉ bad ∧ (∀ b ∈ r.head?, b = 10) ∧
        decode? bad = none := by
  induction hn : bs.length using Nat.strong_induction_on generalizing bs with
  | _ n ih =>
    obtain ⟨p, r, hp, rfl, hr⟩ := exists_append_of_feed bs
    cases hq : decode? p with
    | none => exact .inr ⟨[], p, r, by simp, rfl, hp, hr, hq⟩
    | some q =>
      obtain rfl := eq_encode_of_decode? hq
      have hline : '\n' ∉ q := mt mem_encode.2 hp
      cases r with
      | nil => exact .inl ⟨q, List.append_nil _⟩
      | cons b r =>
        obtain rfl := hr b rfl
        have hless : r.length < n := by
          rw [← hn, List.length_append, List.length_cons]
          omega
        rcases ih _ hless r rfl with ⟨t, rfl⟩ | ⟨qs, bad, r, hqs, rfl, hbad, hr, hnone⟩
        · exact .inl ⟨q ++ '\n' :: t, (encode_append_feed q t).symm⟩
        · refine .inr ⟨q :: qs, bad, r, List.forall_mem_cons.2 ⟨hline, hqs⟩, ?_, hbad, hr, hnone⟩
          rw [unlines, encode_append_feed, List.append_assoc, List.cons_append]

end ModuleRules.Text.Utf8
