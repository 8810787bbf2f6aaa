import ModuleRules.Proofs.Property.Place

/-!
# Properties of a file and settings over them

A property file is read when it is flat, and what keeps it from being read is
the value that the error names. Settings then go over what it says: the last
one with a name counts, and a name that none of them has keeps the value of
the file (`get?_extend_ofToml`).
-/

namespace ModuleRules.BuildProperties

/-- What an argument `KEY=VALUE` sets the name to, if that is its key. -/
def setTo? (name a : Text) : Option Text :=
  (Text.splitOnce '=' a).bind fun (key, value) =>
    if Text.trim key = name then some (Text.trim value) else none

def lastSet? (args : List Text) (name : Text) : Option Text := (args.filterMap (setTo? name)).getLast?

def IsRejected (es : Toml.Entries) (k : Text) : Prop :=
  (∃ v, Ascending.find? k es = some v ∧ v.text? = none ∧
      ¬ (k = tableName ∧ ∃ origin inner, v = .table origin inner)) ∨
    ∃ v, Ascending.find? k (table es) = some v ∧ v.text? = none

variable {p : BuildProperties} {e : PropertyError} {es : Toml.Entries} {k : Text}

/-! ## Settings -/

theorem get?_extend (p : BuildProperties) (settings : List (Text × Text)) (k : Text) :
    (p.extend settings).get? k =
      (settings.filterMap fun s => if s.1 = k then some s.2 else none).getLast?.or (p.get? k) := by
  induction settings generalizing p with
  | nil => rfl
  | cons s settings ih =>
    change ((p.set s.1 s.2).extend settings).get? k = _
    rw [ih, get?_set]
    by_cases hs : s.1 = k
    · simp only [List.filterMap_cons, hs, if_true, List.getLast?_cons]
      cases (settings.filterMap _).getLast? <;> rfl
    · simp [hs]

theorem setTo?_of_parseSetting? {a : Text} {s : Text × Text} (h : parseSetting? a = some s) :
    setTo? k a = if s.1 = k then some s.2 else none := by
  unfold parseSetting? at h
  unfold setTo?
  split at h
  next key value hcut =>
    split at h
    · cases h
    · cases h
      rw [hcut]
      rfl
  next => cases h

theorem lastSet?_eq {args : List Text} {settings : List (Text × Text)}
    (h : args.mapM parseSetting? = some settings) :
    lastSet? args k =
      (settings.filterMap fun s => if s.1 = k then some s.2 else none).getLast? := by
  unfold lastSet?
  congr 1
  induction args generalizing settings with
  | nil =>
    cases h
    rfl
  | cons a args ih =>
    rw [List.mapM_cons] at h
    obtain ⟨s, hs, h⟩ := Option.bind_eq_some_iff.1 h
    obtain ⟨rest, hrest, h⟩ := Option.bind_eq_some_iff.1 h
    cases h
    rw [List.filterMap_cons, List.filterMap_cons, setTo?_of_parseSetting? hs, ih hrest]

/-! ## Rejected values -/

theorem setScalar_eq_error {x : Text × Toml} (h : p.setScalar x = .error e) :
    e = .notScalar x.1 ∧ x.2.text? = none := by
  obtain ⟨name, v⟩ := x
  cases v with
  | scalar s => cases h
  | moment | array | table | tables =>
    cases h
    exact ⟨rfl, rfl⟩

theorem setEntry_eq_error {x : Text × Toml} (h : p.setEntry x = .error e) :
    (e = .notScalar x.1 ∧ x.2.text? = none ∧
        ¬ (x.1 = tableName ∧ ∃ origin inner, x.2 = .table origin inner)) ∨
      x.1 = tableName ∧ ∃ y ∈ ascending x.2.entries, e = .notScalar y.1 ∧ y.2.text? = none := by
  obtain ⟨name, v⟩ := x
  cases v with
  | table origin inner =>
    rw [setEntry] at h
    split at h
    next hname =>
      obtain ⟨y, hy, q, hq⟩ := exists_of_foldlM_eq_error h
      exact .inr ⟨hname, y, hy, setScalar_eq_error hq⟩
    next hname =>
      obtain ⟨he, hv⟩ := setScalar_eq_error h
      exact .inl ⟨he, hv, fun hno => hname hno.1⟩
  | scalar | moment | array | tables =>
    simp only [setEntry] at h
    obtain ⟨he, hv⟩ := setScalar_eq_error h
    exact .inl ⟨he, hv, by simp⟩

theorem find?_of_mem_ascending {x : Text × Toml} (h : x ∈ ascending es) :
    Ascending.find? x.1 es = some x.2 :=
  (forall_mem_ascending (fun k v => Ascending.find? k es = some v) es).2 (fun _ _ h => h) x h

theorem isRejected_of_ofEntries (h : ofEntries es = .error e) :
    ∃ k, e = .notScalar k ∧ IsRejected es k := by
  obtain ⟨x, hx, q, hq⟩ := exists_of_foldlM_eq_error h
  have hfind := find?_of_mem_ascending hx
  rcases setEntry_eq_error hq with ⟨he, hv, hno⟩ | ⟨hname, y, hy, he, hv⟩
  · exact ⟨x.1, he, .inl ⟨x.2, hfind, hv, hno⟩⟩
  · have htable : table es = x.2.entries := by
      rw [hname] at hfind
      rw [table, hfind]
      rfl
    refine ⟨y.1, he, .inr ⟨y.2, ?_, hv⟩⟩
    rw [htable]
    exact find?_of_mem_ascending hy

/-- **What properties are set to.** A document is read exactly when it is flat; otherwise the error
names a key whose value is to blame. After settings a name has the value of the last one for it. If
there is none it has the value of the only place of the document that sets it, or no value if
neither does. -/
theorem get?_extend_ofToml {t : Text} {es : Toml.Entries} (ht : Toml.parse? t = some es) :
    ((∃ p, ofToml t = .ok p) ↔ IsFlat es) ∧
      (∀ e, ofToml t = .error e → ∃ k, e = .notScalar k ∧ IsRejected es k) ∧
      ∀ p args settings, ofToml t = .ok p → args.mapM parseSetting? = some settings → ∀ k,
        (∀ v, lastSet? args k = some v → (p.extend settings).get? k = some v) ∧
        (lastSet? args k = none →
          (∀ v, places es k = (some v, none) ∨ places es k = (none, some v) →
            (p.extend settings).get? k = some v) ∧
          (∀ v w, places es k = (some v, some w) →
            (p.extend settings).get? k = some v ∨ (p.extend settings).get? k = some w) ∧
          (places es k = (none, none) → (p.extend settings).get? k = none)) := by
  have hread : ofToml t = ofEntries es := by
    unfold ofToml
    rw [ht]
  rw [hread]
  refine ⟨exists_ofEntries es, fun e he => isRejected_of_ofEntries he, ?_⟩
  intro p args settings hp hargs k
  have hget : (p.extend settings).get? k = (lastSet? args k).or (resolved? es k) := by
    rw [get?_extend, lastSet?_eq hargs, get?_of_ofEntries hp]
  rw [hget]
  refine ⟨fun v hv => by rw [hv, Option.some_or], fun hnone => ?_⟩
  rw [hnone, Option.none_or]
  unfold resolved? places
  refine ⟨?_, ?_, ?_⟩
  · rintro v (h | h) <;> simp [(Prod.mk.inj h).1, (Prod.mk.inj h).2]
  · intro v w h
    obtain ⟨hv, hw⟩ := Prod.mk.inj h
    rw [hv, hw]
    by_cases hk : k < tableName <;> simp [hk]
  · intro h
    simp [(Prod.mk.inj h).1, (Prod.mk.inj h).2]

/-- The first name is set over the file, the last one nowhere, and the others in one place each. -/
theorem get?_extend_ofToml_overridden :
    let t : Text := "beta = true\nname = ' a '\ndelta = -30\n" ++
      "[properties]\ngamma = 7\nratio = 0.5\nshared = false\n"
    let args : List Text := ["beta=x", " gamma = 8", "beta=y=z"]
    let settings : List (Text × Text) := [("beta", "x"), ("gamma", "8"), ("beta", "y=z")]
    let names : List Text := ["beta", "name", "delta", "ratio", "shared", "epsilon"]
    let last : List (Option Text) := [some "y=z", none, none, none, none, none]
    let placed : List (Option Text × Option Text) := [(some "true", none), (some " a ", none),
      (some "-30", none), (none, some "0.5"), (none, some "false"), (none, none)]
    let got : List (Option Text) :=
      [some "y=z", some " a ", some "-30", some "0.5", some "false", none]
    ∃ es p, Toml.parse? t = some es ∧ ofToml t = .ok p ∧
      args.mapM parseSetting? = some settings ∧ names.map (lastSet? args) = last ∧
      names.map (places es) = placed ∧ names.map (p.extend settings).get? = got := by
  intro t args settings names last placed got
  have hplaces : (Toml.parse? t).map (fun es => names.map (places es)) = some placed := by
    decide +kernel
  obtain ⟨es, ht, hes⟩ := Option.map_eq_some_iff.1 hplaces
  have hp : ofToml t = .ok ⟨[("shared", "false"), ("ratio", "0.5"), ("gamma", "7"),
      ("name", " a "), ("delta", "-30"), ("beta", "true")]⟩ := by decide +kernel
  have hargs : args.mapM parseSetting? = some settings := by decide +kernel
  have hset : names.map (lastSet? args) = last := by decide +kernel
  have hget := (get?_extend_ofToml ht).2.2 _ _ _ hp hargs
  refine ⟨es, _, ht, hp, hargs, hset, hes, ?_⟩
  simp only [names, last, placed, got, List.map_cons, List.map_nil, List.cons.injEq, and_true]
    at hes hset ⊢
  obtain ⟨-, hname, hdelta, hratio, hshared, hepsilon⟩ := hes
  obtain ⟨hbeta, hname', hdelta', hratio', hshared', hepsilon'⟩ := hset
  exact ⟨(hget _).1 _ hbeta, ((hget _).2 hname').1 _ (.inl hname),
    ((hget _).2 hdelta').1 _ (.inl hdelta), ((hget _).2 hratio').1 _ (.inr hratio),
    ((hget _).2 hshared').1 _ (.inr hshared), ((hget _).2 hepsilon').2.2 hepsilon⟩

end ModuleRules.BuildProperties
