import ModuleRules.Text.Blank

/-!
# Module identities

A module is known by its name and its slot. A reference may leave the slot
out, or empty, and then means the slot `main`. The identity `ALL:ALL` stands
for every module.
-/

namespace ModuleRules

structure ModuleId where
  name : Text
  slot : Text
  deriving DecidableEq, Repr

/-- A module as it is written down: the slot may be missing. -/
structure ModuleRef where
  name : Text
  slot : Option Text := none
  deriving DecidableEq, Repr

def mainSlot : Text := "main"

namespace ModuleId

/-- The identity whose rules apply to every module. -/
def wildcard : ModuleId := ⟨"ALL", "ALL"⟩

def isWildcard (id : ModuleId) : Bool := id = wildcard

/-- A missing or empty slot is the main slot. -/
def withSlot (name : Text) : Option Text → ModuleId
  | none => ⟨name, mainSlot⟩
  | some [] => ⟨name, mainSlot⟩
  | some (c :: slot) => ⟨name, c :: slot⟩

def text (id : ModuleId) : Text := id.name ++ ':' :: id.slot

/-! ## Order

By name, then by slot. -/

instance : LT ModuleId := ⟨fun a b => a.name < b.name ∨ a.name = b.name ∧ a.slot < b.slot⟩

instance (a b : ModuleId) : Decidable (a < b) :=
  inferInstanceAs (Decidable (a.name < b.name ∨ a.name = b.name ∧ a.slot < b.slot))

theorem lt_trans {a b c : ModuleId} (hab : a < b) (hbc : b < c) : a < c := by
  rcases hab with hab | ⟨hab, hab'⟩
  · rcases hbc with hbc | ⟨hbc, _⟩
    · exact .inl (List.lt_trans hab hbc)
    · exact .inl (hbc ▸ hab)
  · rcases hbc with hbc | ⟨hbc, hbc'⟩
    · exact .inl (hab ▸ hbc)
    · exact .inr ⟨hab.trans hbc, List.lt_trans hab' hbc'⟩

theorem lt_irrefl (a : ModuleId) : ¬ a < a := by
  rintro (h | ⟨_, h⟩) <;> exact List.lt_irrefl _ h

theorem eq_of_not_lt {a b : ModuleId} (hab : ¬ a < b) (hba : ¬ b < a) : a = b := by
  have hname : a.name = b.name :=
    List.le_antisymm (fun h => hba (.inl h)) (fun h => hab (.inl h))
  have hslot : a.slot = b.slot :=
    List.le_antisymm (fun h => hba (.inr ⟨hname.symm, h⟩)) (fun h => hab (.inr ⟨hname, h⟩))
  cases a
  cases b
  simp_all

end ModuleId

namespace ModuleRef

def identity (r : ModuleRef) : ModuleId := ModuleId.withSlot r.name r.slot

/-- The slot is written only when there is one. -/
def text (r : ModuleRef) : Text :=
  match r.slot with
  | some slot => r.name ++ ':' :: slot
  | none => r.name

/-- A slot that is blank counts as missing. -/
def slotOfPiece (piece : Text) : Option Text :=
  match Text.trim piece with
  | [] => none
  | c :: slot => some (c :: slot)

/-- Reads `name[:slot]`; what follows a second colon is ignored, and the name may be empty. -/
def read (t : Text) : ModuleRef :=
  match Text.split ':' (Text.trim t) with
  | [] => ⟨[], none⟩
  | [name] => ⟨Text.trim name, none⟩
  | name :: slot :: _ => ⟨Text.trim name, slotOfPiece slot⟩

end ModuleRef

structure EmptyName where
  text : Text
  deriving DecidableEq, Repr

def EmptyName.message (e : EmptyName) : Text :=
  "Module name must not be empty in '" ++ e.text ++ "'"

def ModuleId.parse (t : Text) : Except EmptyName ModuleId :=
  let r := ModuleRef.read t
  if r.name = [] then .error ⟨Text.trim t⟩ else .ok r.identity

end ModuleRules
