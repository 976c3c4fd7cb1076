import RawLift.Json.Printer

/-!
Values that JSON has a form for: those without an unwritable leaf at any depth. Data may hold leaves
that JSON has no form for, but none that stands where a part of a tree belongs.
-/

namespace RawLift

namespace Json

theorem unwritableElements_eq_flatMap (vs : List Value) :
    unwritableElements vs = vs.flatMap unwritables := by
  induction vs with
  | nil => rfl
  | cons v vs ih => rw [unwritableElements, ih, List.flatMap_cons]

theorem unwritableMembers_eq_flatMap (ms : Members) :
    unwritableMembers ms = ms.flatMap fun m => unwritables m.2 := by
  induction ms with
  | nil => rfl
  | cons m ms ih => rw [unwritableMembers, ih, List.flatMap_cons]

end Json

namespace Value

def IsJson (v : Value) : Prop := Json.unwritables v = []

instance (v : Value) : Decidable v.IsJson :=
  inferInstanceAs (Decidable (Json.unwritables v = []))

@[simp] theorem isJson_string (s : Text) : (string s).IsJson := rfl

@[simp] theorem isJson_array (vs : List Value) : (array vs).IsJson ↔ ∀ v ∈ vs, v.IsJson := by
  rw [IsJson, Json.unwritables, Json.unwritableElements_eq_flatMap, List.flatMap_eq_nil_iff]
  rfl

@[simp] theorem isJson_object (ms : Members) : (object ms).IsJson ↔ ∀ m ∈ ms, m.2.IsJson := by
  rw [IsJson, Json.unwritables, Json.unwritableMembers_eq_flatMap, List.flatMap_eq_nil_iff]
  rfl

theorem not_isJson_iff {v : Value} : ¬ v.IsJson ↔ ∃ u, u ∈ Json.unwritables v := by
  simp [IsJson, List.eq_nil_iff_forall_not_mem]

/-- The leaf that turning a tree into this value stops at. -/
def treeFault? (v : Value) : Option Unwritable :=
  (Json.unwritables v).find? Unwritable.isInTree

theorem IsJson.treeFault?_eq_none {v : Value} (json : v.IsJson) : v.treeFault? = none := by
  rw [treeFault?, json, List.find?_nil]

/-- Whatever a verbatim node may hold: turning a tree into a value never stops inside it. -/
def IsData (v : Value) : Prop := ∀ u ∈ Json.unwritables v, u.isInTree = false

instance (v : Value) : Decidable v.IsData :=
  inferInstanceAs (Decidable (∀ u ∈ Json.unwritables v, u.isInTree = false))

theorem IsJson.isData {v : Value} (json : v.IsJson) : v.IsData := by
  rw [IsData, json]
  simp

theorem treeFault?_eq_none_iff {v : Value} : v.treeFault? = none ↔ v.IsData := by
  simp [treeFault?, IsData, List.find?_eq_none]

theorem IsData.treeFault?_eq_none {v : Value} (data : v.IsData) : v.treeFault? = none :=
  treeFault?_eq_none_iff.mpr data

@[simp] theorem isData_string (s : Text) : (string s).IsData := (isJson_string s).isData

@[simp] theorem isData_array (vs : List Value) : (array vs).IsData ↔ ∀ v ∈ vs, v.IsData := by
  simp only [IsData, Json.unwritables, Json.unwritableElements_eq_flatMap, List.mem_flatMap]
  constructor
  · intro data v mem u inside
    exact data u ⟨v, mem, inside⟩
  · rintro data u ⟨v, mem, inside⟩
    exact data v mem u inside

@[simp] theorem isData_object (ms : Members) : (object ms).IsData ↔ ∀ m ∈ ms, m.2.IsData := by
  simp only [IsData, Json.unwritables, Json.unwritableMembers_eq_flatMap, List.mem_flatMap]
  constructor
  · intro data m mem u inside
    exact data u ⟨m, mem, inside⟩
  · rintro data u ⟨m, mem, inside⟩
    exact data m mem u inside

end Value

end RawLift
