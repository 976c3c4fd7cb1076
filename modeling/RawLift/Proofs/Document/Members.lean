import Mathlib.Data.List.Induction
import Mathlib.Data.List.Nodup
import RawLift.Document
import RawLift.Proofs.Node.RoundTrip

/-!
A document read from an object is written as that object: all members, in their order, with only
the blocks made anew. The keys of an object are distinct.
-/

namespace RawLift

namespace Members

theorem get?_eq_some_iff {ms : Members} (distinct : ms.keys.Nodup) {key : Text} {v : Value} :
    ms.get? key = some v ↔ (key, v) ∈ ms :=
  lookup_eq_some_iff_mem distinct

theorem key_mem {ms : Members} {key : Text} {v : Value} (mem : (key, v) ∈ ms) : key ∈ ms.keys :=
  List.mem_map.mpr ⟨_, mem, rfl⟩

theorem insert_of_not_mem {ms : Members} {key : Text} (new : key ∉ ms.keys) (v : Value) :
    insert key v ms = ms ++ [(key, v)] := by
  induction ms with
  | nil => rfl
  | cons m ms ih =>
    obtain ⟨k, w⟩ := m
    simp only [keys, List.map_cons, List.mem_cons, not_or] at new
    rw [insert, if_neg (Ne.symm new.1), ih new.2, List.cons_append]

theorem nodup_insert {ms : Members} (distinct : ms.keys.Nodup) (k : Text) (v : Value) :
    (ms.insert k v).keys.Nodup := by
  rw [keys_insert]
  split
  · exact distinct
  next new =>
    rw [← List.concat_eq_append]
    exact .concat new distinct

theorem mem_of_mem_insert {ms : Members} {k : Text} {v : Value} {m : Text × Value}
    (mem : m ∈ ms.insert k v) : m.2 = v ∨ m ∈ ms := by
  induction ms with
  | nil => simp_all [insert]
  | cons n ms ih =>
    obtain ⟨k', v'⟩ := n
    rw [insert] at mem
    split at mem
    · rcases List.mem_cons.mp mem with rfl | mem
      · exact .inl rfl
      · exact .inr (List.mem_cons_of_mem _ mem)
    · rcases List.mem_cons.mp mem with rfl | mem
      · exact .inr List.mem_cons_self
      · exact (ih mem).imp_right (List.mem_cons_of_mem _)

theorem foldl_insert_eq_append (held : Members) {ms : Members}
    (distinct : (held ++ ms).keys.Nodup) :
    ms.foldl (fun ns m => ns.insert m.1 m.2) held = held ++ ms := by
  induction ms generalizing held with
  | nil => simp
  | cons m ms ih =>
    obtain ⟨k, v⟩ := m
    have new : k ∉ held.keys := by
      rw [keys, List.map_append, List.nodup_append] at distinct
      intro old
      exact distinct.2.2 k old k List.mem_cons_self rfl
    rw [List.foldl_cons, insert_of_not_mem new, ih]
    · simp
    · simpa using distinct

theorem ofPairs_of_nodup {ms : Members} (distinct : ms.keys.Nodup) : ofPairs ms = ms :=
  foldl_insert_eq_append [] distinct

theorem insert_of_mem {ms : Members} (distinct : ms.keys.Nodup) {key : Text} {v : Value}
    (mem : (key, v) ∈ ms) : ms.insert key v = ms := by
  induction ms with
  | nil => cases mem
  | cons m ms ih =>
    obtain ⟨k, w⟩ := m
    rw [keys, List.map_cons, List.nodup_cons] at distinct
    by_cases same : k = key
    · subst same
      rcases List.mem_cons.mp mem with here | later
      · cases here
        simp [insert]
      · exact absurd (key_mem later) distinct.1
    · have later : (key, v) ∈ ms := by simpa [Ne.symm same] using mem
      rw [insert, if_neg same, ih distinct.2 later]

/-! ### Picking members -/

/-- The members that a look-up finds under these keys. -/
def picked (value? : Text → Option Value) (keys : List Text) : Members :=
  keys.filterMap fun k => (value? k).map (k, ·)

variable {value? : Text → Option Value} {keys : List Text}

theorem mem_picked {key : Text} {v : Value} :
    (key, v) ∈ picked value? keys ↔ key ∈ keys ∧ value? key = some v := by
  simp [picked, List.mem_filterMap]

theorem keys_picked :
    (picked value? keys).keys = keys.filter fun k => (value? k).isSome := by
  rw [picked, Members.keys, List.map_filterMap, ← List.filterMap_eq_filter]
  congr 1
  funext k
  cases found : value? k <;> simp [Option.guard, found]

theorem eraseDups_concat (keys : List Text) (k : Text) :
    (keys ++ [k]).eraseDups = if k ∈ keys then keys.eraseDups else keys.eraseDups ++ [k] := by
  rw [List.eraseDups_append]
  by_cases old : k ∈ keys <;> simp [List.removeAll, old, List.eraseDups_cons]

theorem nodup_eraseDups (keys : List Text) : keys.eraseDups.Nodup := by
  induction keys using List.reverseRecOn with
  | nil => simp
  | append_singleton keys k ih =>
    rw [eraseDups_concat]
    split
    · exact ih
    next new =>
      rw [← List.concat_eq_append]
      exact .concat (mt List.mem_eraseDups.mp new) ih

theorem eraseDups_of_nodup {keys : List Text} (distinct : keys.Nodup) : keys.eraseDups = keys := by
  induction keys using List.reverseRecOn with
  | nil => rfl
  | append_singleton keys k ih =>
    obtain ⟨before, -, apart⟩ := List.nodup_append.mp distinct
    have new : k ∉ keys := fun old => apart k old k List.mem_cons_self rfl
    rw [eraseDups_concat, if_neg new, ih before]

/-- Filling in one key after the other: a key that comes again changes nothing. -/
theorem foldl_insert_eq_picked (value? : Text → Option Value) (keys : List Text) :
    keys.foldl (fun ms k => match value? k with
      | some v => insert k v ms
      | none => ms) [] = picked value? keys.eraseDups := by
  induction keys using List.reverseRecOn with
  | nil => rfl
  | append_singleton keys k ih =>
    rw [List.foldl_append, ih, List.foldl_cons, List.foldl_nil, eraseDups_concat]
    have distinct : (picked value? keys.eraseDups).keys.Nodup := by
      rw [keys_picked]
      exact (nodup_eraseDups keys).filter _
    -- A known key has its member already, and that with the same value.
    by_cases old : k ∈ keys
    · rw [if_pos old]
      cases found : value? k with
      | none => rfl
      | some v => exact insert_of_mem distinct (mem_picked.mpr ⟨by simpa using old, found⟩)
    · rw [if_neg old]
      cases found : value? k with
      | none => simp [picked, found]
      | some v =>
        have new : k ∉ (picked value? keys.eraseDups).keys := by simp [keys_picked, old]
        simp only [insert_of_not_mem new v]
        simp [picked, found]

end Members

/-- Changes the items of an array and leaves every other value. -/
def Value.mapArray (f : List Value → List Value) : Value → Value
  | .array vs => .array (f vs)
  | v => v

theorem Value.mapArray_of_array?_eq_none {v : Value} (h : v.array? = none)
    (f : List Value → List Value) : v.mapArray f = v := by
  cases v with
  | array vs => simp [array?] at h
  | _ => rfl

namespace Members

/-- Changes the items of `blocks`, if that is an array, and nothing else. -/
def mapBlocks (f : List Value → List Value) (ms : Members) : Members :=
  ms.map fun m => if m.1 = blocksKey then (m.1, m.2.mapArray f) else m

@[simp] theorem keys_mapBlocks (f : List Value → List Value) (ms : Members) :
    (ms.mapBlocks f).keys = ms.keys := by
  rw [mapBlocks, keys, keys, List.map_map]
  apply List.map_congr_left
  intro m _
  simp only [Function.comp_apply]
  split <;> rfl

theorem mapBlocks_cons (f : List Value → List Value) (k : Text) (v : Value) (ms : Members) :
    mapBlocks f ((k, v) :: ms) =
      (k, if k = blocksKey then v.mapArray f else v) :: mapBlocks f ms := by
  rw [mapBlocks, List.map_cons]
  split <;> rfl

theorem get?_mapBlocks (f : List Value → List Value) (ms : Members) (key : Text) :
    (ms.mapBlocks f).get? key =
      (ms.get? key).map fun v => if key = blocksKey then v.mapArray f else v := by
  induction ms with
  | nil => rfl
  | cons m ms ih =>
    obtain ⟨k, v⟩ := m
    rw [mapBlocks_cons]
    by_cases same : key = k
    · subst same
      simp [get?]
    · have other : (key == k) = false := beq_eq_false_iff_ne.mpr same
      rw [get?, get?, List.lookup_cons, List.lookup_cons, other]
      exact ih

theorem forall_mem_mapBlocks {P : Value → Prop} {f : List Value → List Value}
    (items : ∀ vs, P (.array vs) → P (.array (f vs))) {ms : Members} (holds : ∀ m ∈ ms, P m.2) :
    ∀ m ∈ ms.mapBlocks f, P m.2 := by
  rw [mapBlocks, List.forall_mem_map]
  rintro ⟨k, v⟩ mem
  have value : P v := holds (k, v) mem
  split
  · cases v with
    | array vs => exact items vs value
    | _ => exact value
  · exact value

theorem mapBlocks_mapBlocks (f g : List Value → List Value) (ms : Members) :
    (ms.mapBlocks f).mapBlocks g = ms.mapBlocks (g ∘ f) := by
  rw [mapBlocks, mapBlocks, mapBlocks, List.map_map]
  apply List.map_congr_left
  rintro ⟨k, v⟩ -
  by_cases isBlocks : k = blocksKey
  · cases v <;> simp [isBlocks, Value.mapArray]
  · simp [isBlocks]

theorem blocks_mem_mapBlocks {f : List Value → List Value} {ms : Members} {ws : List Value} :
    (blocksKey, .array ws) ∈ ms.mapBlocks f ↔ ∃ vs, (blocksKey, .array vs) ∈ ms ∧ ws = f vs := by
  constructor
  · intro mem
    obtain ⟨⟨k, v⟩, mem, same⟩ := List.mem_map.mp mem
    by_cases isBlocks : k = blocksKey
    · subst isBlocks
      cases v with
      | array vs =>
        refine ⟨vs, mem, ?_⟩
        simpa [Value.mapArray, eq_comm] using same
      | _ => simp [Value.mapArray] at same
    · simp only [isBlocks, if_false] at same
      exact absurd (congrArg Prod.fst same) isBlocks
  · rintro ⟨vs, mem, rfl⟩
    exact List.mem_map.mpr ⟨_, mem, by simp [Value.mapArray]⟩

end Members

namespace Document

theorem metadataKey_ne_blocksKey : metadataKey ≠ blocksKey := by decide

theorem blocks_ofMembers (ms : Members) :
    (ofMembers ms).blocks = ((ms.get? blocksKey).bind Value.array?).map Node.decodeAll := by
  rw [ofMembers]
  cases ms.get? blocksKey <;> rfl

theorem blocks_ofMembers_eq_some_iff {ms : Members} (distinct : ms.keys.Nodup) {ns : List Node} :
    (ofMembers ms).blocks = some ns ↔
      ∃ vs, (blocksKey, .array vs) ∈ ms ∧ ns = Node.decodeAll vs := by
  simp only [blocks_ofMembers, Option.map_eq_some_iff, Option.bind_eq_some_iff,
    Members.get?_eq_some_iff distinct, Value.array?_eq_some]
  constructor
  · rintro ⟨vs, ⟨_, mem, rfl⟩, rfl⟩
    exact ⟨vs, mem, rfl⟩
  · rintro ⟨vs, mem, rfl⟩
    exact ⟨vs, ⟨_, mem, rfl⟩, rfl⟩

/-- An array of blocks is not among the members that a document keeps as they are. -/
theorem extra_mapBlocks (f : List Value → List Value) (ms : Members) :
    (ofMembers (ms.mapBlocks f)).extra = (ofMembers ms).extra := by
  simp only [ofMembers]
  induction ms with
  | nil => rfl
  | cons m ms ih =>
    obtain ⟨k, v⟩ := m
    rw [Members.mapBlocks_cons, List.filter_cons, List.filter_cons, ih]
    by_cases isBlocks : k = blocksKey
    · cases v <;> simp [isBlocks, Value.mapArray, Value.array?]
    · simp [isBlocks]

/-- What a document that was read holds under a name, with its blocks changed since. -/
theorem member?_of_mem {ms : Members} (distinct : ms.keys.Nodup) (f : List Node → List Node)
    {m : Text × Value} (mem : m ∈ ms) :
    member? { ofMembers ms with blocks := (ofMembers ms).blocks.map f } m.1 =
      some (if m.1 = blocksKey then
        m.2.mapArray fun vs => Node.encodeAll (f (Node.decodeAll vs)) else m.2) := by
  obtain ⟨k, v⟩ := m
  have held : ms.get? k = some v := (Members.get?_eq_some_iff distinct).mpr mem
  have extraKept (kept : ¬ (k = metadataKey ∨ (k = blocksKey ∧ v.array?.isSome))) :
      (ofMembers ms).extra.get? k = some v := by
    have smaller : (ofMembers ms).extra.keys.Sublist ms.keys := List.filter_sublist.map _
    refine (Members.get?_eq_some_iff (distinct.sublist smaller)).mpr ?_
    exact List.mem_filter.mpr ⟨mem, decide_eq_true kept⟩
  rw [member?]
  by_cases isMetadata : k = metadataKey
  · subst isMetadata
    simp [metadataKey_ne_blocksKey, ofMembers, held]
  by_cases isBlocks : k = blocksKey
  · subst isBlocks
    simp only [isMetadata, if_false, if_true]
    cases array : v.array? with
    | some vs =>
      rw [Value.array?_eq_some.mp array] at held ⊢
      simp [encodedBlocks?, blocks_ofMembers, held, Value.array?, Value.mapArray]
    | none =>
      rw [Value.mapArray_of_array?_eq_none array, ← extraKept (by simp [isMetadata, array])]
      simp [encodedBlocks?, blocks_ofMembers, held, array]
  · simp [isMetadata, isBlocks, extraKept]

theorem listed_eq_picked (d : Document) :
    d.listed = Members.picked d.member? d.keyOrder.eraseDups :=
  Members.foldl_insert_eq_picked d.member? d.keyOrder

theorem listed_eq {d : Document} (distinct : d.keyOrder.Nodup) :
    d.listed = d.keyOrder.filterMap fun k => (d.member? k).map (k, ·) := by
  rw [listed_eq_picked, Members.eraseDups_of_nodup distinct, Members.picked]

/-- A document that was read is written as the same members, with its blocks as they are now. -/
theorem members_ofMembers {ms : Members} (distinct : ms.keys.Nodup) (f : List Node → List Node) :
    members { ofMembers ms with blocks := (ofMembers ms).blocks.map f } =
      ms.mapBlocks fun vs => Node.encodeAll (f (Node.decodeAll vs)) := by
  have listedAll : listed { ofMembers ms with blocks := (ofMembers ms).blocks.map f } =
      ms.mapBlocks fun vs => Node.encodeAll (f (Node.decodeAll vs)) := by
    rw [listed_eq distinct]
    change (ms.map Prod.fst).filterMap _ = _
    rw [List.filterMap_map, Members.mapBlocks, List.filterMap_eq_map_iff_forall_eq_some]
    intro m mem
    rw [Function.comp_apply, member?_of_mem distinct f mem]
    split <;> rfl
  have nothingNew {held new : Members} (same : held.keys = ms.keys)
      (old : ∀ m ∈ new, m.1 ∈ ms.keys) : appendNew held new = held := by
    rw [appendNew, same, List.filter_eq_nil_iff.mpr, List.append_nil]
    intro m mem
    simpa using old m mem
  have extraOld : ∀ m ∈ (ofMembers ms).extra, m.1 ∈ ms.keys := by
    intro m mem
    exact Members.key_mem (List.mem_filter.mp mem).1
  rw [members, listedAll, nothingNew (Members.keys_mapBlocks _ _) extraOld]
  cases encoded : encodedBlocks? { ofMembers ms with blocks := (ofMembers ms).blocks.map f } with
  | none => rfl
  | some v =>
    refine nothingNew (Members.keys_mapBlocks _ _) ?_
    obtain ⟨changed, hasChanged, -⟩ := Option.map_eq_some_iff.mp encoded
    obtain ⟨ns, hasBlocks, -⟩ := Option.map_eq_some_iff.mp hasChanged
    obtain ⟨vs, mem, -⟩ := (blocks_ofMembers_eq_some_iff distinct).mp hasBlocks
    simpa using Members.key_mem mem

end Document

end RawLift
