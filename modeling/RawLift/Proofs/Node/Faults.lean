import RawLift.Proofs.Blocks.Outline
import RawLift.Proofs.Node.Canonical

/-!
Where in a tree a fault keeps it from being written. Only the nodes count that writing comes to: the
texts behind an image that remembers its source are not among them. Of those nodes, the ones that
are no nodes are at fault, and the ones that carry along data that JSON has no form for.
-/

namespace RawLift.Node

/-! ### What writing comes to -/

/-- The nodes that are written with a node. -/
def parts : Node → List Node
  | paragraph _ content _ => content
  | image _ alt _ _ none _ => alt
  | n => n.children

theorem sizeOf_parts (n : Node) : sizeOf n.parts ≤ sizeOf n := by
  cases n with
  | image attributes alt url title source order =>
    cases source <;> simp [parts, children] <;> omega
  | _ => simp [parts, children] <;> omega

/-- The node is one of these or is written with one of them. -/
inductive Reached (ns : List Node) : Node → Prop
  | top {n : Node} (mem : n ∈ ns) : Reached ns n
  | part {n m : Node} (reached : Reached ns n) (mem : m ∈ n.parts) : Reached ns m

theorem not_reached_nil (m : Node) : ¬ Reached [] m := by
  intro reached
  induction reached with
  | top mem => cases mem
  | part _ _ ih => exact ih

theorem Reached.mono {ns ms : List Node} {m : Node} (reached : Reached ns m)
    (tops : ∀ n ∈ ns, Reached ms n) : Reached ms m := by
  induction reached with
  | top mem => exact tops _ mem
  | part _ mem ih => exact .part ih mem

theorem reached_cons {n m : Node} {ns : List Node} :
    Reached (n :: ns) m ↔ m = n ∨ Reached n.parts m ∨ Reached ns m := by
  constructor
  · intro reached
    induction reached with
    | top mem =>
      rcases List.mem_cons.mp mem with rfl | mem
      · exact .inl rfl
      · exact .inr (.inr (.top mem))
    | part _ mem ih =>
      rcases ih with rfl | inside | behind
      · exact .inr (.inl (.top mem))
      · exact .inr (.inl (.part inside mem))
      · exact .inr (.inr (.part behind mem))
  · rintro (rfl | inside | behind)
    · exact .top List.mem_cons_self
    · exact inside.mono fun k mem => .part (.top List.mem_cons_self) mem
    · exact behind.mono fun k mem => .top (List.mem_cons_of_mem n mem)

/-- What holds of all nodes that writing comes to, holds of the first, below it and behind it. -/
theorem forall_reached_cons {P : Node → Prop} {n : Node} {ns : List Node} :
    (∀ m, Reached (n :: ns) m → P m) ↔
      P n ∧ (∀ m, Reached n.parts m → P m) ∧ ∀ m, Reached ns m → P m := by
  simp only [reached_cons]
  grind

/-! ### Faults -/

/-- The values that a node carries along and that are written as they are. -/
def data : Node → List Value
  | figure _ caption _ _ => [caption]
  | image _ _ _ _ (some source) _ => [source]
  | verbatim raw => [raw]
  | _ => []

/-- The leaves that a node is to blame for itself. -/
def faults : Node → List Unwritable
  | stray typeName => [.notANode typeName]
  | n => n.data.flatMap Json.unwritables

/-- It is no node, or what it carries along has no JSON form. -/
def Offends (n : Node) : Prop := (∃ typeName, n = stray typeName) ∨ ∃ v ∈ n.data, ¬ v.IsJson

/-- The list and the attributes that a node is written from are there. -/
def IsWhole : Node → Prop
  | hollow _ => False
  | div attributes _ _ | figure attributes _ _ _ | image attributes _ _ _ none _ =>
    attributes.isSome = true
  | _ => True

theorem mem_faults {n : Node} {u : Unwritable} : u ∈ n.faults ↔
    (∃ typeName, n = stray typeName ∧ u = .notANode typeName) ∨
      ∃ v ∈ n.data, u ∈ Json.unwritables v := by
  cases n with
  | stray => simp [faults, data]
  | _ => simp [faults]

theorem offends_iff {n : Node} : n.Offends ↔ ∃ u, u ∈ n.faults := by
  simp only [Offends, mem_faults, Value.not_isJson_iff]
  constructor
  · rintro (⟨typeName, rfl⟩ | ⟨v, mem, u, inside⟩)
    · exact ⟨_, .inl ⟨typeName, rfl, rfl⟩⟩
    · exact ⟨u, .inr ⟨v, mem, inside⟩⟩
  · rintro ⟨u, ⟨typeName, rfl, rfl⟩ | ⟨v, mem, inside⟩⟩
    · exact .inl ⟨typeName, rfl⟩
    · exact .inr ⟨v, mem, u, inside⟩

theorem unwritables_tagged (order : MemberOrder) (name : Text) (payload : Value) :
    Json.unwritables (tagged order name payload) = Json.unwritables payload := by
  cases order <;>
    simp [tagged, Json.unwritables, Json.unwritableMembers_eq_flatMap]

theorem unwritables_attributes {attributes : Option Attributes}
    (there : attributes.isSome = true) :
    Json.unwritables (Attributes.encodeOption attributes) = [] := by
  obtain ⟨a, rfl⟩ := Option.isSome_iff_exists.mp there
  exact isJson_attributes a

/-- The faults of a node come first, then what is wrong with its parts. -/
theorem unwritables_encode {n : Node} (whole : n.IsWhole) :
    Json.unwritables n.encode = n.faults ++ Json.unwritableElements (encodeAll n.parts) := by
  cases n with
  | hollow => cases whole
  | image attributes alt url title source order =>
    cases source with
    | some source =>
      simp [encode, imageValue, faults, data, parts, children, encodeAll, Json.unwritableElements]
    | none =>
      simp [encode, imageValue, faults, data, parts, unwritables_tagged,
        unwritables_attributes whole, Json.unwritables, Json.unwritableElements]
  | div | figure =>
    simp [encode, faults, data, parts, children, unwritables_tagged, unwritables_attributes whole,
      Json.unwritables, Json.unwritableElements]
  | _ =>
    simp [encode, faults, data, parts, children, unwritables_tagged, encodeAll, Json.unwritables,
      Json.unwritableElements, Json.unwritableMembers]

/-- The unwritable leaves of a written forest are the faults of the nodes that writing comes to. -/
theorem mem_unwritableElements_encodeAll {ns : List Node} (whole : ∀ n, Reached ns n → n.IsWhole)
    {u : Unwritable} :
    u ∈ Json.unwritableElements (encodeAll ns) ↔ ∃ n, Reached ns n ∧ u ∈ n.faults := by
  induction ns using forest_induction_of sizeOf_parts with
  | nil => simp [encodeAll, Json.unwritableElements, not_reached_nil]
  | cons n ns below behind =>
    obtain ⟨first, inside, later⟩ := forall_reached_cons.mp whole
    rw [encodeAll, Json.unwritableElements, unwritables_encode first, List.mem_append,
      List.mem_append, below inside, behind later]
    simp only [reached_cons]
    grind

end RawLift.Node
