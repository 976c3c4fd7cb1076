import RawLift.Proofs.Document.Members

/-!
What any document is written as, also one that was put together by hand. Its order may repeat
names, list unknown ones and leave some out, and what it keeps as it is may stand under `blocks` or
`meta` too. Every name is written once.
-/

namespace RawLift

namespace Document

/-! ### Names -/

theorem keys_appendNew (ms new : Members) :
    (appendNew ms new).keys = ms.keys ++ new.keys.filter (· ∉ ms.keys) := by
  simp [appendNew, Members.keys, List.filter_map, Function.comp_def]

theorem mem_appendNew {ms new : Members} {m : Text × Value} :
    m ∈ appendNew ms new ↔ m ∈ ms ∨ (m ∈ new ∧ m.1 ∉ ms.keys) := by
  simp [appendNew]

theorem nodup_keys_appendNew {ms new : Members} (distinct : ms.keys.Nodup)
    (newDistinct : new.keys.Nodup) : (appendNew ms new).keys.Nodup := by
  rw [keys_appendNew, List.nodup_append]
  refine ⟨distinct, newDistinct.filter _, ?_⟩
  rintro a old b mem rfl
  have fresh := (List.mem_filter.mp mem).2
  simp [old] at fresh

/-- What a document has something to write for, if its order lists it. -/
def Holds (d : Document) (key : Text) : Prop :=
  key = metadataKey ∨ (key = blocksKey ∧ d.blocks.isSome = true) ∨ key ∈ d.extra.keys

instance (d : Document) (key : Text) : Decidable (d.Holds key) :=
  inferInstanceAs (Decidable (_ ∨ _ ∧ _ ∨ _))

/-- The listed names that the document holds something for, each at its first mention. -/
def listedNames (d : Document) : List Text := d.keyOrder.eraseDups.filter (d.Holds ·)

/-- Those, and behind them the other members that are kept as they are. -/
def heldNames (d : Document) : List Text :=
  d.listedNames ++ d.extra.keys.filter (· ∉ d.listedNames)

/-- The names in the order in which they are written; the blocks come last if nothing else names
them. -/
def names (d : Document) : List Text :=
  if d.blocks.isSome = true ∧ blocksKey ∉ d.heldNames then d.heldNames ++ [blocksKey]
  else d.heldNames

theorem mem_listedNames {d : Document} {key : Text} :
    key ∈ d.listedNames ↔ key ∈ d.keyOrder ∧ d.Holds key := by
  simp [listedNames]

theorem mem_heldNames {d : Document} {key : Text} :
    key ∈ d.heldNames ↔ key ∈ d.listedNames ∨ key ∈ d.extra.keys := by
  rw [heldNames, List.mem_append, List.mem_filter, decide_eq_true_iff]
  by_cases listed : key ∈ d.listedNames <;> simp [listed]

/-- What a document carries under a name, wherever its order puts it. -/
inductive Carries (d : Document) : Text → Value → Prop
  | metadata : metadataKey ∈ d.keyOrder → Carries d metadataKey d.metadata
  | blocks {bs : List Node} : d.blocks = some bs →
      blocksKey ∈ d.keyOrder ∨ blocksKey ∉ d.extra.keys →
      Carries d blocksKey (.array (Node.encodeAll bs))
  | extra {key : Text} {v : Value} : (key, v) ∈ d.extra →
      (key ∈ d.keyOrder → key ≠ metadataKey ∧ (key = blocksKey → d.blocks = none)) → Carries d key v

theorem mem_listed {d : Document} {key : Text} {v : Value} :
    (key, v) ∈ d.listed ↔ key ∈ d.keyOrder ∧ d.member? key = some v := by
  rw [listed_eq_picked, Members.mem_picked, List.mem_eraseDups]

theorem mem_keys_iff {ms : Members} (distinct : ms.keys.Nodup) {key : Text} :
    key ∈ ms.keys ↔ ∃ v, ms.get? key = some v := by
  simp [Members.get?_eq_some_iff distinct, Members.keys]

section
variable {d : Document} (distinct : d.extra.keys.Nodup)
include distinct

theorem member?_eq_some_iff {key : Text} {v : Value} : d.member? key = some v ↔
    (key = metadataKey ∧ v = d.metadata) ∨
    (key = blocksKey ∧ ∃ bs, d.blocks = some bs ∧ v = .array (Node.encodeAll bs)) ∨
    ((key, v) ∈ d.extra ∧ key ≠ metadataKey ∧ (key = blocksKey → d.blocks = none)) := by
  have differ := metadataKey_ne_blocksKey
  rw [member?, ← Members.get?_eq_some_iff distinct]
  by_cases isMetadata : key = metadataKey
  · simp [isMetadata, differ, eq_comm (a := v)]
  by_cases isBlocks : key = blocksKey
  · cases blocks : d.blocks <;> simp [isBlocks, differ.symm, encodedBlocks?, blocks, eq_comm]
  · simp [isMetadata, isBlocks]

theorem isSome_member? {key : Text} : (d.member? key).isSome = true ↔ d.Holds key := by
  rw [Holds, mem_keys_iff distinct, member?]
  by_cases isMetadata : key = metadataKey
  · simp [isMetadata]
  by_cases isBlocks : key = blocksKey
  · cases blocks : d.blocks <;>
      simp [isBlocks, metadataKey_ne_blocksKey.symm, encodedBlocks?, blocks,
        Option.isSome_iff_exists]
  · simp [isMetadata, isBlocks, Option.isSome_iff_exists]

theorem keys_listed : d.listed.keys = d.listedNames := by
  rw [listed_eq_picked, Members.keys_picked, listedNames]
  apply List.filter_congr
  intro key _
  rw [Bool.eq_iff_iff, decide_eq_true_iff, isSome_member? distinct]

end

/-- All members but blocks that nothing names. -/
def held (d : Document) : Members := appendNew d.listed d.extra

theorem members_eq (d : Document) : d.members =
    appendNew d.held (d.encodedBlocks?.toList.map fun v => (blocksKey, v)) := by
  rw [members, held]
  cases d.encodedBlocks? with
  | none => simp [appendNew]
  | some v => rfl

section
variable {d : Document} (distinct : d.extra.keys.Nodup)
include distinct

theorem keys_held : d.held.keys = d.heldNames := by
  rw [held, keys_appendNew, keys_listed distinct, heldNames]

theorem keys_members : d.members.keys = d.names := by
  rw [members_eq, keys_appendNew, keys_held distinct, names]
  cases blocks : d.blocks with
  | none => simp [encodedBlocks?, blocks, Members.keys]
  | some bs =>
    by_cases old : blocksKey ∈ d.heldNames <;> simp [encodedBlocks?, blocks, Members.keys, old]

theorem nodup_keys_members : d.members.keys.Nodup := by
  rw [members_eq]
  apply nodup_keys_appendNew
  · apply nodup_keys_appendNew _ distinct
    rw [keys_listed distinct]
    exact (Members.nodup_eraseDups d.keyOrder).filter _
  · cases d.encodedBlocks? <;> simp [Members.keys]

theorem mem_held {key : Text} {v : Value} : (key, v) ∈ d.held ↔
    (key, v) ∈ d.listed ∨ ((key, v) ∈ d.extra ∧ key ∉ d.keyOrder) := by
  rw [held, mem_appendNew, keys_listed distinct, mem_listedNames]
  apply or_congr_right
  apply and_congr_right
  intro mem
  have holds : d.Holds key := .inr (.inr (Members.key_mem mem))
  simp [holds]

theorem mem_members_iff {key : Text} {v : Value} : (key, v) ∈ d.members ↔ d.Carries key v := by
  rw [members_eq, mem_appendNew, keys_held distinct, mem_held distinct, mem_listed,
    member?_eq_some_iff distinct]
  constructor
  · rintro ((⟨listed, ⟨rfl, rfl⟩ | ⟨rfl, bs, some, rfl⟩ | ⟨mem, other⟩⟩ | ⟨mem, unlisted⟩) | last)
    · exact .metadata listed
    · exact .blocks some (.inl listed)
    · exact .extra mem fun _ => other
    · exact .extra mem fun listed => absurd listed unlisted
    · obtain ⟨mem, new⟩ := last
      obtain ⟨w, written, same⟩ := List.mem_map.mp mem
      obtain ⟨bs, some, rfl⟩ := Option.map_eq_some_iff.mp (Option.mem_toList.mp written)
      cases same
      exact .blocks some (.inr fun old => new (mem_heldNames.mpr (.inr old)))
  · intro carries
    cases carries with
    | metadata listed => exact .inl (.inl ⟨listed, .inl ⟨rfl, rfl⟩⟩)
    | extra mem other =>
      by_cases listed : key ∈ d.keyOrder
      · exact .inl (.inl ⟨listed, .inr (.inr ⟨mem, other listed⟩)⟩)
      · exact .inl (.inr ⟨mem, listed⟩)
    | @blocks bs some unnamed =>
      by_cases listed : blocksKey ∈ d.keyOrder
      · exact .inl (.inl ⟨listed, .inr (.inl ⟨rfl, bs, some, rfl⟩)⟩)
      · refine .inr ⟨by simp [encodedBlocks?, some], ?_⟩
        simp [mem_heldNames, mem_listedNames, listed, unnamed.resolve_left listed]

end

/-! ### Writing -/

/-- The members that a document is written as, or what turning it into a value stops at. -/
def members? (d : Document) : Except Unwritable Members :=
  match d.encode.treeFault? with
  | some fault => .error fault
  | none => .ok d.members

/-- A document whose blocks can be written is written under the names above, each once, and every
name with what the document carries under it. -/
theorem members?_eq_ok {d : Document} (distinct : d.extra.keys.Nodup)
    (encodable : ∀ bs, d.blocks = some bs → ∀ n ∈ bs, ∃ v, n.encode? = .ok v)
    (metadata : d.metadata.IsData) (extra : ∀ m ∈ d.extra, m.2.IsData) :
    ∃ ms, d.members? = .ok ms ∧ ms.keys.Nodup ∧ ms.keys = d.names ∧
      ∀ key v, (key, v) ∈ ms ↔ d.Carries key v := by
  have data : d.encode.IsData := by
    rw [encode, Value.isData_object]
    rintro ⟨key, v⟩ mem
    cases (mem_members_iff distinct).mp mem with
    | metadata => exact metadata
    | extra mem => exact extra _ mem
    | @blocks bs some =>
      rw [Value.isData_array, Node.encodeAll_eq_map, List.forall_mem_map]
      intro n mem
      obtain ⟨v, written⟩ := encodable bs some n mem
      obtain ⟨rfl, data⟩ := Node.encode?_eq_ok_iff.mp written
      exact data
  refine ⟨d.members, ?_, nodup_keys_members distinct, keys_members distinct, ?_⟩
  · rw [members?, data.treeFault?_eq_none]
  · intro key v
    exact mem_members_iff distinct

/-- Names that are repeated, unknown or not listed, and kept members called `blocks` and `meta`. -/
def patchwork : Document where
  blocks := some [.paragraph "Para" [.text "Str" "text"]]
  metadata := .object [("title", .string "A")]
  extra := [("note", .null), (metadataKey, .bool true), (blocksKey, .string "none")]
  keyOrder := ["unknown", blocksKey, "note", blocksKey]

theorem members?_eq_ok_patchwork : patchwork.extra.keys.Nodup ∧
    (∀ bs, patchwork.blocks = some bs → ∀ n ∈ bs, ∃ v, n.encode? = .ok v) ∧
    patchwork.metadata.IsData ∧ (∀ m ∈ patchwork.extra, m.2.IsData) ∧
    ∃ ms, patchwork.members? = .ok ms ∧ ms.keys.Nodup ∧ ms.keys = [blocksKey, "note", metadataKey] ∧
      ∀ key v, (key, v) ∈ ms ↔ patchwork.Carries key v := by
  have distinct : patchwork.extra.keys.Nodup := by decide
  have encodable : ∀ bs, patchwork.blocks = some bs → ∀ n ∈ bs, ∃ v, n.encode? = .ok v := by
    rintro _ ⟨⟩ n mem
    obtain rfl := List.mem_singleton.mp mem
    exact ⟨_, rfl⟩
  have metadata : patchwork.metadata.IsData := by decide
  have extra : ∀ m ∈ patchwork.extra, m.2.IsData := by decide
  have names : patchwork.names = [blocksKey, "note", metadataKey] := by decide
  refine ⟨distinct, encodable, metadata, extra, ?_⟩
  rw [← names]
  exact members?_eq_ok distinct encodable metadata extra

end Document

end RawLift
