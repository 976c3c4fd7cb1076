import RawLift.Proofs.Document.Written
import RawLift.Proofs.Node.Faults
import RawLift.Target

/-!
When a document cannot be written. Something in what is written has no JSON form: a node of its
blocks is at fault, its metadata is, or a member that it keeps as it is. What is not written may
hold anything.
-/

namespace RawLift

namespace Json

/-! ### One value -/

section
variable [Machine]

/-- Writing in this layout stops at a leaf for just the values that have no JSON form. -/
def Layout.Discerns (l : Layout) : Prop :=
  ∀ v : Value, v.IsData → ((∃ cause, write l v = .error (.leaf cause)) ↔ ¬ v.IsJson)

variable {l : Layout} {v : Value}

theorem write_of_isJson (fits : l.excess? = none) (json : v.IsJson) :
    write l v = .ok (valueText l 0 v) := by
  rw [write, obstacle?, json, fits]
  rfl

theorem write_of_not_isJson (fits : l.excess? = none) (unwritable : ¬ v.IsJson) :
    ∃ cause ∈ unwritables v, write l v = .error (.leaf cause) := by
  obtain ⟨u, mem⟩ := Value.not_isJson_iff.mp unwritable
  cases inTree : (unwritables v).find? Unwritable.isInTree with
  | some cause =>
    refine ⟨cause, List.mem_of_find?_eq_some inTree, ?_⟩
    rw [write, obstacle?, inTree]
    rfl
  | none =>
    obtain ⟨cause, rest, leaves⟩ := List.exists_cons_of_ne_nil (List.ne_nil_of_mem mem)
    refine ⟨cause, leaves ▸ List.mem_cons_self, ?_⟩
    rw [write, obstacle?, inTree, fits, leaves]
    rfl

/-- No indent is too wide for such a layout. -/
theorem Layout.discerns_iff : l.Discerns ↔ l.excess? = none := by
  constructor
  · intro discerns
    cases wide : l.excess? with
    | none => rfl
    | some excess =>
      have data : (Value.unwritable .circular).IsData := by decide
      obtain ⟨cause, stopped⟩ := (discerns _ data).mpr (by decide)
      simp [write, obstacle?, unwritables, Unwritable.isInTree, wide] at stopped
  · intro fits v _
    constructor
    · rintro ⟨cause, stopped⟩ json
      rw [write_of_isJson fits json] at stopped
      cases stopped
    · intro unwritable
      obtain ⟨cause, -, stopped⟩ := write_of_not_isJson fits unwritable
      exact ⟨cause, stopped⟩

end

end Json

theorem Failure.exists_report_unwritable {cause : Unwritable} (known : cause ≠ .noAttributes) :
    ∃ message, (Failure.unwritable cause).report =
      .rendering message (some Failure.encodingStage) := by
  cases cause with
  | noAttributes => exact absurd rfl known
  | _ => exact ⟨_, rfl⟩

namespace Document

/-! ### Whole documents -/

/-- A document put together from nodes and from data. Some objects may be no nodes, and the data
need not be JSON, but no lists and no attributes are missing. -/
structure IsBuilt (d : Document) : Prop where
  distinct : d.extra.keys.Nodup
  metadata : d.metadata.IsData
  extra : ∀ m ∈ d.extra, m.2.IsData
  nodes : ∀ bs, d.blocks = some bs → ∀ n, Node.Reached bs n → n.IsWhole ∧ ∀ v ∈ n.data, v.IsData

/-- What keeps a document from being written. The blocks are written but where a kept member has
their name and the order does not list it; a kept member called `blocks` or `meta` is written but
where the order lists the name and the document has blocks or metadata for it. -/
inductive Offends (d : Document) : Prop
  | block {bs : List Node} {n : Node} (blocks : d.blocks = some bs)
      (written : blocksKey ∈ d.keyOrder ∨ blocksKey ∉ d.extra.keys) (reached : Node.Reached bs n)
      (offends : n.Offends) : Offends d
  | metadata (written : metadataKey ∈ d.keyOrder) (unwritable : ¬ d.metadata.IsJson) : Offends d
  | extra {key : Text} {v : Value} (mem : (key, v) ∈ d.extra)
      (written : key ∈ d.keyOrder → key ≠ metadataKey ∧ (key = blocksKey → d.blocks = none))
      (unwritable : ¬ v.IsJson) : Offends d

theorem mem_unwritables_encode {d : Document} (distinct : d.extra.keys.Nodup) {u : Unwritable} :
    u ∈ Json.unwritables d.encode ↔ ∃ key v, d.Carries key v ∧ u ∈ Json.unwritables v := by
  rw [encode, Json.unwritables, Json.unwritableMembers_eq_flatMap, List.mem_flatMap]
  simp only [Prod.exists, mem_members_iff distinct]

section
variable {d : Document} (built : d.IsBuilt)
include built

theorem mem_unwritables_blocks {bs : List Node} (blocks : d.blocks = some bs) {u : Unwritable} :
    u ∈ Json.unwritables (.array (Node.encodeAll bs)) ↔
      ∃ n, Node.Reached bs n ∧ u ∈ n.faults :=
  Node.mem_unwritableElements_encodeAll fun n reached => (built.nodes bs blocks n reached).1

theorem offends_iff : d.Offends ↔ ¬ d.encode.IsJson := by
  rw [Value.not_isJson_iff]
  simp only [mem_unwritables_encode built.distinct]
  constructor
  · rintro (⟨blocks, written, reached, offends⟩ | ⟨written, unwritable⟩ |
      ⟨mem, written, unwritable⟩)
    · obtain ⟨u, fault⟩ := Node.offends_iff.mp offends
      exact ⟨u, _, _, .blocks blocks written,
        (mem_unwritables_blocks built blocks).mpr ⟨_, reached, fault⟩⟩
    · obtain ⟨u, inside⟩ := Value.not_isJson_iff.mp unwritable
      exact ⟨u, _, _, .metadata written, inside⟩
    · obtain ⟨u, inside⟩ := Value.not_isJson_iff.mp unwritable
      exact ⟨u, _, _, .extra mem written, inside⟩
  · rintro ⟨u, key, v, carries, inside⟩
    cases carries with
    | metadata written => exact .metadata written (Value.not_isJson_iff.mpr ⟨u, inside⟩)
    | extra mem written => exact .extra mem written (Value.not_isJson_iff.mpr ⟨u, inside⟩)
    | blocks blocks written =>
      obtain ⟨n, reached, fault⟩ := (mem_unwritables_blocks built blocks).mp inside
      exact .block blocks written reached (Node.offends_iff.mpr ⟨u, fault⟩)

/-- No attributes are missed on the way. -/
theorem not_mem_unwritables_encode : .noAttributes ∉ Json.unwritables d.encode := by
  have absent {v : Value} (data : v.IsData) : .noAttributes ∉ Json.unwritables v := by
    intro inside
    cases data _ inside
  rw [mem_unwritables_encode built.distinct]
  rintro ⟨key, v, carries, inside⟩
  cases carries with
  | metadata => exact absent built.metadata inside
  | extra mem => exact absent (built.extra _ mem) inside
  | @blocks bs blocks =>
    obtain ⟨n, reached, fault⟩ := (mem_unwritables_blocks built blocks).mp inside
    rcases Node.mem_faults.mp fault with ⟨typeName, -, other⟩ | ⟨v, mem, inside⟩
    · cases other
    · exact absent ((built.nodes bs blocks n reached).2 v mem) inside

/-- A document is written, or is refused in the encoding stage for something in what is to be
written. -/
theorem render_error_iff [Json.Machine] {l : Json.Layout} (discerns : l.Discerns) :
    ((∃ t, d.render l = .ok t) ∨ ∃ f message, d.render l = .error f ∧
        f.report = .rendering message (some Failure.encodingStage)) ∧
      ((∃ f, d.render l = .error f) ↔ d.Offends) := by
  have fits := Json.Layout.discerns_iff.mp discerns
  rw [offends_iff built, render]
  by_cases json : d.encode.IsJson
  · rw [Json.write_of_isJson fits json]
    exact ⟨.inl ⟨_, rfl⟩, by simp [json]⟩
  · obtain ⟨cause, mem, stopped⟩ := Json.write_of_not_isJson fits json
    rw [stopped]
    have known : cause ≠ .noAttributes := by
      rintro rfl
      exact not_mem_unwritables_encode built mem
    obtain ⟨message, reported⟩ := Failure.exists_report_unwritable known
    exact ⟨.inr ⟨_, message, rfl, reported⟩, by simp [json]⟩

end

section
attribute [local instance] Json.Machine.roomy

/-- An object that is no node behind an image with a source, and metadata that is not listed. -/
def veiled : Document where
  blocks := some [.paragraph "Para" [.image (some {}) [.stray "object"] [] [] (some (.string "x"))]]
  metadata := .unwritable .circular
  keyOrder := [blocksKey]

theorem render_error_iff_veiled :
    veiled.IsBuilt ∧ Json.Layout.Discerns {} ∧ (∃ t, veiled.render {} = .ok t) ∧
      ¬ veiled.Offends := by
  have built : veiled.IsBuilt := by
    refine ⟨by decide, by decide, by simp [veiled], ?_⟩
    rintro _ ⟨⟩
    simp [Node.forall_reached_cons, Node.parts, Node.children, Node.not_reached_nil, Node.IsWhole,
      Node.data]
  have discerns : Json.Layout.Discerns {} := Json.Layout.discerns_iff.mpr rfl
  have written : ∃ t, veiled.render {} = .ok t := ⟨_, rfl⟩
  have fails := (render_error_iff built discerns).2
  refine ⟨built, discerns, written, fun offends => ?_⟩
  obtain ⟨f, refused⟩ := fails.mpr offends
  obtain ⟨t, rendered⟩ := written
  cases rendered.symm.trans refused

end

end Document

end RawLift
