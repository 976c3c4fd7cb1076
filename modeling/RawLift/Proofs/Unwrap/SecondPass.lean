import RawLift.Proofs.Unwrap.Object

/-!
Unwrapping what has been unwrapped. Under narrower options a second pass over the object finds
nothing to replace: raw blocks are read as raw blocks, and a paragraph that stayed stays.
-/

namespace RawLift.Unwrap

open Node

section
variable {o' o : Options} (narrower : o'.Narrower o) {ms : Members} (distinct : ms.keys.Nodup)
include narrower

theorem mapBlocks_values_mapBlocks (ms : Members) :
    (ms.mapBlocks (values o)).mapBlocks (values o') = ms.mapBlocks (values o) := by
  have absorbed : values o' ∘ values o = values o := by
    funext vs
    exact values_values narrower vs
  rw [Members.mapBlocks_mapBlocks, absorbed]

include distinct

theorem documentTally_mapBlocks :
    documentTally o' (.ofMembers (ms.mapBlocks (values o))) = {} := by
  have distinct' : (ms.mapBlocks (values o)).keys.Nodup := by rwa [Members.keys_mapBlocks]
  rw [documentTally]
  cases read : (Document.ofMembers (ms.mapBlocks (values o))).blocks with
  | none => rfl
  | some ns =>
    obtain ⟨ws, mem, rfl⟩ := (Document.blocks_ofMembers_eq_some_iff distinct').mp read
    obtain ⟨vs, -, rfl⟩ := Members.blocks_mem_mapBlocks.mp mem
    rw [Option.getD_some, decodeAll_values]
    exact tally_blocks narrower (Node.decodeAll vs)

end

/-- A second pass with narrower options gives back what it was given and counts nothing. -/
theorem tryMembers_tryMembers {o' o : Options} (narrower : o'.Narrower o) {ms : Members}
    (distinct : ms.keys.Nodup) (json : (Value.object ms).IsJson) :
    ∃ ns, (Session.tryMembers { options := o } ms).1 = .ok ns ∧
      Session.tryMembers { options := o' } ns = (.ok ns, { options := o' }) := by
  have distinct' : (ms.mapBlocks (values o)).keys.Nodup := by rwa [Members.keys_mapBlocks]
  refine ⟨ms.mapBlocks (values o), ?_, ?_⟩
  · rw [Session.tryMembers_eq _ distinct json]
  · rw [Session.tryMembers_eq _ distinct' (isJson_mapBlocks o json)]
    rw [mapBlocks_values_mapBlocks narrower, documentTally_mapBlocks narrower distinct]
    rfl

/-- One paragraph that is raised, and one that has a lead but cannot be flattened. -/
def mixedBlocks : Members :=
  let lead := tagged .tagFirst "Str" (.string "<b>")
  let emphasis := tagged .tagFirst "Emph" (.array [])
  [(blocksKey, .array [
    tagged .tagFirst "BlockQuote" (.array [tagged .payloadFirst "Para" (.array [lead])]),
    tagged .tagFirst "Para" (.array [lead, emphasis])])]

/-- Less than the default options ask for, and another format. -/
def strictTei : Options := { images := false, requireSpace := true, format := ⟨"tei", by decide⟩ }

theorem tryMembers_tryMembers_mixedBlocks :
    strictTei.Narrower {} ∧ mixedBlocks.keys.Nodup ∧ (Value.object mixedBlocks).IsJson ∧
      ∃ ns, (Session.tryMembers {} mixedBlocks).1 = .ok ns ∧
        Session.tryMembers { options := strictTei } ns = (.ok ns, { options := strictTei }) := by
  have narrower : strictTei.Narrower {} := by constructor <;> decide
  have distinct : mixedBlocks.keys.Nodup := by decide
  have json : (Value.object mixedBlocks).IsJson := by decide
  exact ⟨narrower, distinct, json, tryMembers_tryMembers narrower distinct json⟩

end RawLift.Unwrap
