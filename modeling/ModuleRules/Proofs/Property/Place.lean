import ModuleRules.Property.File
import ModuleRules.Proofs.Ascending
import ModuleRules.Proofs.Rule.Store
import ModuleRules.Proofs.Success
import ModuleRules.Proofs.Text.Order

/-!
# The two places of a property

A property file sets a name at top level, in its table `properties`, or in
both. The key `properties` takes its turn among the keys at top level, so a
name that comes before it has the value of the table and a name that comes
after it has the other one (`get?_of_ofEntries`). Two names that are set in
both places are taken from the same place only when they are on the same side
of that key (`same_place_iff`).
-/

namespace ModuleRules

open Text.Utf8 (encode)

namespace Toml

/-- How a string, a number or a boolean is written as a property: a string as it is, without
quotes, and an integer in decimal. -/
def text? : Toml → Option Text
  | .scalar (.string t) => some t
  | .scalar (.integer n) => some ((if n < 0 then ['-'] else []) ++ Nat.toDigits 10 n.natAbs)
  | .scalar (.float x) => some x.text
  | .scalar (.boolean b) => some (if b then "true" else "false")
  | _ => none

def entries : Toml → Entries
  | .table _ es => es
  | _ => []

theorem text?_scalar (s : Scalar) : text? (.scalar s) = some s.text := by
  cases s with
  | string | float => rfl
  | integer n =>
    cases n with
    | ofNat n => simp [text?, Scalar.text, Text.ofInt, Text.ofNat]
    | negSucc n => simp [text?, Scalar.text, Text.ofInt, Text.ofNat]
  | boolean b => cases b <;> rfl

end Toml

namespace BuildProperties

def valueIn? (es : Toml.Entries) (name : Text) : Option Text :=
  (Ascending.find? name es).bind Toml.text?

def table (es : Toml.Entries) : Toml.Entries :=
  ((Ascending.find? tableName es).map Toml.entries).getD []

/-- What a name is set to at top level and in the table. -/
def places (es : Toml.Entries) (name : Text) : Option Text × Option Text :=
  (valueIn? es name, valueIn? (table es) name)

/-- The value that the order of the keys leaves to a name. -/
def resolved? (es : Toml.Entries) (name : Text) : Option Text :=
  if name < tableName then (valueIn? (table es) name).or (valueIn? es name)
  else (valueIn? es name).or (valueIn? (table es) name)

/-- Only the key `properties` may have a table, and that one only scalars. -/
def IsSettable (k : Text) (v : Toml) : Prop :=
  v.text?.isSome = true ∨ k = tableName ∧ ∃ origin inner, v = .table origin inner ∧
    ∀ k w, Ascending.find? k inner = some w → w.text?.isSome = true

def IsFlat (es : Toml.Entries) : Prop := ∀ k v, Ascending.find? k es = some v → IsSettable k v

/-! ## Ascending keys -/

section
variable {es : Toml.Entries} {j k : Text} {v : Toml}

theorem find?_ascending (k : Text) (es : Toml.Entries) :
    Ascending.find? k (ascending es) = Ascending.find? k es :=
  Ascending.find?_ofList List.lt_irrefl List.lt_trans (flip List.le_antisymm) k es

theorem pairwise_ascending (es : Toml.Entries) : (ascending es).Pairwise (·.1 < ·.1) :=
  Ascending.pairwise_ofList Prod.fst List.lt_trans es

theorem forall_mem_ascending (P : Text → Toml → Prop) (es : Toml.Entries) :
    (∀ e ∈ ascending es, P e.1 e.2) ↔ ∀ k v, Ascending.find? k es = some v → P k v := by
  constructor
  · intro h k v hkv
    rw [← find?_ascending] at hkv
    exact h (k, v) (Ascending.mem_of_find? hkv)
  · intro h e he
    have hfind := Ascending.find?_of_mem List.lt_irrefl (pairwise_ascending es) he
    rw [find?_ascending] at hfind
    exact h e.1 e.2 hfind

theorem valueIn?_ascending (k : Text) (es : Toml.Entries) :
    valueIn? (ascending es) k = valueIn? es k := by
  rw [valueIn?, valueIn?, find?_ascending]

theorem resolved?_ascending (k : Text) (es : Toml.Entries) :
    resolved? (ascending es) k = resolved? es k := by
  simp only [resolved?, table, valueIn?_ascending, find?_ascending]

theorem find?_eq_none (h : ∀ e ∈ es, k < e.1) : Ascending.find? k es = none :=
  Ascending.find?_eq_none_of_lt List.lt_irrefl h

theorem valueIn?_eq_none (h : ∀ e ∈ es, k < e.1) : valueIn? es k = none := by
  rw [valueIn?, find?_eq_none h]
  rfl

@[simp] theorem valueIn?_nil (k : Text) : valueIn? [] k = none := rfl

theorem valueIn?_cons (j k : Text) (v : Toml) (es : Toml.Entries) :
    valueIn? ((j, v) :: es) k = if j = k then v.text? else valueIn? es k := by
  unfold valueIn?
  by_cases h : j = k <;> simp [Ascending.find?, h]

theorem table_cons (j : Text) (v : Toml) (es : Toml.Entries) :
    table ((j, v) :: es) = if j = tableName then v.entries else table es := by
  unfold table
  by_cases h : j = tableName <;> simp [Ascending.find?, h]

theorem table_eq_nil (h : ∀ e ∈ es, tableName < e.1) : table es = [] := by
  rw [table, find?_eq_none h]
  rfl

/-- What a key says of a name, at top level or as the key of the table. -/
def said? (k : Text) (j : Text) (v : Toml) : Option Text :=
  (if j = k then v.text? else none).or (if j = tableName then valueIn? v.entries k else none)

/-- The first of ascending keys counts where none of the others says anything. -/
theorem resolved?_cons (h : ∀ e ∈ es, j < e.1) (v : Toml) :
    resolved? ((j, v) :: es) k = (resolved? es k).or (said? k j v) := by
  unfold resolved? said?
  rw [valueIn?_cons, table_cons]
  by_cases hj : j = tableName
  · -- the table itself: what comes behind it has no table any more
    have htable : table es = [] := table_eq_nil (hj ▸ h)
    rw [if_pos hj, if_pos hj, htable, valueIn?_nil]
    by_cases hk : k < tableName
    · have hne : j ≠ k := by
        rintro rfl
        exact List.lt_irrefl tableName (hj ▸ hk)
      have hnone : valueIn? es k = none :=
        valueIn?_eq_none fun e he => List.lt_trans hk (hj ▸ h e he)
      simp [hk, hne, hnone]
    · by_cases hjk : j = k
      · have hnone : valueIn? es k = none := valueIn?_eq_none (hjk ▸ h)
        simp [hk, hjk, hnone]
      · simp [hk, hjk]
  · rw [if_neg hj, if_neg hj, Option.or_none]
    by_cases hjk : j = k
    · have hnone : valueIn? es k = none := valueIn?_eq_none (hjk ▸ h)
      rw [if_pos hjk, if_pos hjk, hnone]
      by_cases hk : k < tableName
      · simp [hk]
      · have hlt : tableName < j := by
          by_contra hle
          exact hj (List.le_antisymm hle (hjk ▸ hk))
        have htable : table es = [] := table_eq_nil fun e he => List.lt_trans hlt (h e he)
        simp [hk, htable]
    · simp [hjk]

end

/-! ## Setting -/

section
variable {p q : BuildProperties}

theorem get?_set (p : BuildProperties) (name value k : Text) :
    (p.set name value).get? k = (if name = k then some value else none).or (p.get? k) := by
  by_cases h : name = k <;> simp [get?, set, h]

theorem setScalar_eq_ok_iff {e : Text × Toml} :
    p.setScalar e = .ok q ↔ ∃ x, e.2.text? = some x ∧ q = p.set e.1 x := by
  obtain ⟨name, v⟩ := e
  cases v with
  | scalar s => simp [setScalar, Toml.text?_scalar, eq_comm]
  | moment | array | table | tables => simp [setScalar, Toml.text?]

theorem get?_foldlM_setScalar (k : Text) : ∀ {es : Toml.Entries} {p : BuildProperties},
    es.Pairwise (·.1 < ·.1) → es.foldlM setScalar p = .ok q →
      q.get? k = (valueIn? es k).or (p.get? k)
  | [], p, _, h => by
    cases h
    rfl
  | (j, v) :: es, p, hes, h => by
    obtain ⟨hj, hes⟩ := List.pairwise_cons.1 hes
    rw [List.foldlM_cons] at h
    obtain ⟨p', hp, h⟩ := bind_eq_ok.1 h
    obtain ⟨x, hx, rfl⟩ := setScalar_eq_ok_iff.1 hp
    have ih := get?_foldlM_setScalar k hes h
    have hv : v.text? = some x := hx
    rw [ih, get?_set, valueIn?_cons, ← Option.or_assoc]
    by_cases hk : j = k
    · have hnone : valueIn? es k = none := valueIn?_eq_none (hk ▸ hj)
      simp [hk, hv, hnone]
    · simp [hk]

theorem get?_setEntry (k : Text) {j : Text} {v : Toml} (h : p.setEntry (j, v) = .ok q) :
    q.get? k = (said? k j v).or (p.get? k) := by
  cases v with
  | table origin es =>
    rw [setEntry] at h
    split at h
    next hj =>
      have hget := get?_foldlM_setScalar k (pairwise_ascending es) h
      rw [valueIn?_ascending] at hget
      simp [hget, said?, hj, Toml.text?, Toml.entries]
    next => cases h
  | scalar s =>
    cases h
    simp [get?_set, said?, Toml.text?_scalar, Toml.entries]
  | moment | array | tables => cases h

theorem get?_foldlM_setEntry (k : Text) : ∀ {es : Toml.Entries} {p : BuildProperties},
    es.Pairwise (·.1 < ·.1) → es.foldlM setEntry p = .ok q →
      q.get? k = (resolved? es k).or (p.get? k)
  | [], p, _, h => by
    cases h
    have hnil : resolved? [] k = none := by
      unfold resolved?
      split <;> rfl
    rw [hnil]
    rfl
  | (j, v) :: es, p, hes, h => by
    obtain ⟨hj, hes⟩ := List.pairwise_cons.1 hes
    rw [List.foldlM_cons] at h
    obtain ⟨p', hp, h⟩ := bind_eq_ok.1 h
    have ih := get?_foldlM_setEntry k hes h
    rw [ih, get?_setEntry k hp, resolved?_cons hj, Option.or_assoc]

theorem get?_of_ofEntries {es : Toml.Entries} (h : ofEntries es = .ok p) (k : Text) :
    p.get? k = resolved? es k := by
  have hget := get?_foldlM_setEntry k (pairwise_ascending es) h
  rw [resolved?_ascending] at hget
  have hempty : ({} : BuildProperties).get? k = none := rfl
  rw [hget, hempty, Option.or_none]

/-! ## Success -/

theorem exists_setScalar (p : BuildProperties) (e : Text × Toml) :
    (∃ q, p.setScalar e = .ok q) ↔ e.2.text?.isSome = true := by
  rw [Option.isSome_iff_exists]
  simp only [setScalar_eq_ok_iff]
  constructor
  · rintro ⟨q, x, hx, -⟩
    exact ⟨x, hx⟩
  · rintro ⟨x, hx⟩
    exact ⟨_, x, hx, rfl⟩

theorem exists_setEntry (p : BuildProperties) (e : Text × Toml) :
    (∃ q, p.setEntry e = .ok q) ↔ IsSettable e.1 e.2 := by
  obtain ⟨j, v⟩ := e
  cases v with
  | table origin es =>
    rw [setEntry]
    by_cases hj : j = tableName
    · rw [if_pos hj, foldlM_eq_ok_iff exists_setScalar]
      rw [forall_mem_ascending (fun _ w => w.text?.isSome = true) es]
      simp [IsSettable, hj, Toml.text?]
    · rw [if_neg hj, exists_setScalar]
      simp [IsSettable, hj]
  | scalar | moment | array | tables =>
    rw [setEntry, exists_setScalar]
    · simp [IsSettable]
    · simp

theorem exists_ofEntries (es : Toml.Entries) : (∃ p, ofEntries es = .ok p) ↔ IsFlat es := by
  unfold ofEntries
  rw [foldlM_eq_ok_iff exists_setEntry]
  exact forall_mem_ascending IsSettable es

end

/-- **Which place a property is taken from.** A document that is flat sets the names of both
places, and a name that is set in both has the value of the table just when it comes before the
key of the table. So two such names are taken from the same place if and only if they are on the
same side of that key, or one of them has the same value in both places. -/
theorem same_place_iff {t : Text} {es : Toml.Entries} (ht : Toml.parse? t = some es) :
    ((∃ p, ofToml t = .ok p) ↔ IsFlat es) ∧
      ∀ p, ofToml t = .ok p →
        (∀ k, p.get? k = if encode k < encode tableName
          then (places es k).2.or (places es k).1 else (places es k).1.or (places es k).2) ∧
        ∀ m n a b c d, places es m = (some a, some b) → places es n = (some c, some d) →
          ((p.get? m = some b ∧ p.get? n = some d ∨ p.get? m = some a ∧ p.get? n = some c) ↔
            ((encode m < encode tableName ↔ encode n < encode tableName) ∨ a = b ∨ c = d)) := by
  have hread : ofToml t = ofEntries es := by
    unfold ofToml
    rw [ht]
  simp only [hread, Text.Utf8.encode_lt_encode_iff]
  refine ⟨exists_ofEntries es, fun p hp => ⟨get?_of_ofEntries hp, ?_⟩⟩
  intro m n a b c d hm hn
  obtain ⟨ha, hb⟩ := Prod.mk.inj hm
  obtain ⟨hc, hd⟩ := Prod.mk.inj hn
  rw [get?_of_ofEntries hp, get?_of_ofEntries hp, resolved?, resolved?, ha, hb, hc, hd]
  by_cases hm : m < tableName
  · by_cases hn : n < tableName
    · simp [hm, hn]
    · simp [hm, hn, @eq_comm _ b a, or_comm]
  · by_cases hn : n < tableName
    · simp [hm, hn, @eq_comm _ d c]
    · simp [hm, hn]

theorem same_place_iff_before_table :
    let t : Text := "alpha = '1'\nbeta = 2\n[properties]\nbeta = 4.5\nalpha = '3'\n"
    ∃ es p, Toml.parse? t = some es ∧ ofToml t = .ok p ∧
      places es "alpha" = (some ("1" : Text), some ("3" : Text)) ∧
      places es "beta" = (some ("2" : Text), some ("4.5" : Text)) ∧
      (p.get? "alpha" = some "3" ∧ p.get? "beta" = some "4.5" ∨
        p.get? "alpha" = some "1" ∧ p.get? "beta" = some "2") := by
  intro t
  have hplaces : (Toml.parse? t).map (fun es => (places es "alpha", places es "beta")) =
      some ((some ("1" : Text), some ("3" : Text)), some ("2" : Text), some ("4.5" : Text)) := by
    decide +kernel
  obtain ⟨es, ht, hes⟩ := Option.map_eq_some_iff.1 hplaces
  obtain ⟨halpha, hbeta⟩ := Prod.mk.inj hes
  have hp : ofToml t =
      .ok ⟨[("beta", "4.5"), ("alpha", "3"), ("beta", "2"), ("alpha", "1")]⟩ := by decide +kernel
  have hsame := ((same_place_iff ht).2 _ hp).2 _ _ _ _ _ _ halpha hbeta
  exact ⟨es, _, ht, hp, halpha, hbeta, hsame.2 (.inl (by decide))⟩

/-- The key of the table stands between the two names. -/
theorem not_same_place_of_order :
    let t : Text := "alpha = '1'\nzeta = '1'\n[properties]\nalpha = '2'\nzeta = '2'\n"
    ∃ es p, Toml.parse? t = some es ∧ ofToml t = .ok p ∧
      places es "alpha" = (some ("1" : Text), some ("2" : Text)) ∧
      places es "zeta" = (some ("1" : Text), some ("2" : Text)) ∧
      ¬ (p.get? "alpha" = some "2" ∧ p.get? "zeta" = some "2" ∨
        p.get? "alpha" = some "1" ∧ p.get? "zeta" = some "1") := by
  intro t
  have hplaces : (Toml.parse? t).map (fun es => (places es "alpha", places es "zeta")) =
      some ((some ("1" : Text), some ("2" : Text)), some ("1" : Text), some ("2" : Text)) := by
    decide +kernel
  obtain ⟨es, ht, hes⟩ := Option.map_eq_some_iff.1 hplaces
  obtain ⟨halpha, hzeta⟩ := Prod.mk.inj hes
  have hp : ofToml t =
      .ok ⟨[("zeta", "1"), ("zeta", "2"), ("alpha", "2"), ("alpha", "1")]⟩ := by decide +kernel
  exact ⟨es, _, ht, hp, halpha, hzeta, by decide⟩

end BuildProperties

end ModuleRules
