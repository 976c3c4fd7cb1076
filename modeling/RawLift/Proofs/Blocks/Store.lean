import RawLift.Proofs.Blocks.Outline

/-!
Trees of objects. Blocks are kept at references, and a container knows its children by theirs, so a
change to an object shows in each list of references that leads to it. Whatever a block has apart
from its children never changes and has no reference of its own.
-/

namespace RawLift

/-- Where an object is kept. -/
abbrev Ref := Nat

/-- A block without its children, and where these are kept. -/
structure Object where
  block : Node
  children : List Ref

/-- All the objects, the newest last. -/
abbrev Store := List Object

namespace Store

variable {st st' : Store} {r : Ref} {refs : List Ref} {ns : List Node}

/-! ### Changes -/

/-- Gives an object other children. -/
def setChildren (st : Store) (r : Ref) (children : List Ref) : Store :=
  st.modify r fun object => { object with children }

@[simp] theorem length_setChildren (st : Store) (r : Ref) (children : List Ref) :
    (st.setChildren r children).length = st.length :=
  List.length_modify _ _ _

theorem getElem?_setChildren_self {object : Object} (found : st[r]? = some object)
    (children : List Ref) :
    (st.setChildren r children)[r]? = some { object with children } := by
  rw [setChildren, List.getElem?_modify_eq, found]
  rfl

theorem getElem?_setChildren_of_ne {other : Ref} (apart : r ≠ other) (children : List Ref) :
    (st.setChildren r children)[other]? = st[other]? :=
  List.getElem?_modify_ne _ _ apart

theorem setChildren_of_same {object : Object} (found : st[r]? = some object) :
    st.setChildren r object.children = st := by
  apply List.ext_getElem?
  intro other
  by_cases here : r = other
  · rw [← here, getElem?_setChildren_self found, found]
  · exact getElem?_setChildren_of_ne here object.children

/-- Objects may have been added, and of those that were there, only the listed ones may have
changed. -/
structure Changed (touched : List Ref) (before after : Store) : Prop where
  grown : before.length ≤ after.length
  kept : ∀ r, r < before.length → r ∉ touched → after[r]? = before[r]?

theorem changed_setChildren (st : Store) (r : Ref) (children : List Ref) :
    Changed [r] st (st.setChildren r children) where
  grown := (length_setChildren st r children).ge
  kept other _ apart := by
    rw [List.mem_singleton] at apart
    exact getElem?_setChildren_of_ne (Ne.symm apart) children

theorem getElem?_of_added (added : st <+: st') {r : Ref} (old : r < st.length) :
    st'[r]? = st[r]? := by
  obtain ⟨new, rfl⟩ := added
  exact List.getElem?_append_left old

theorem changed_of_added (added : st <+: st') (touched : List Ref) : Changed touched st st' where
  grown := added.length_le
  kept _ old _ := getElem?_of_added added old

theorem Changed.mono {touched more : List Ref} (changed : Changed touched st st')
    (sub : touched ⊆ more) : Changed more st st' where
  grown := changed.grown
  kept r old apart := changed.kept r old fun mem => apart (sub mem)

theorem Changed.trans {touched : List Ref} {st'' : Store} (first : Changed touched st st')
    (second : Changed touched st' st'') : Changed touched st st'' where
  grown := first.grown.trans second.grown
  kept r old apart := by
    rw [second.kept r (old.trans_le first.grown) apart, first.kept r old apart]

/-! ### What is read -/

/-- The forest that references lead to, and the references to all that it is made of, in
preorder. -/
inductive Shows (st : Store) : List Ref → List Node → List Ref → Prop
  | nil : Shows st [] [] []
  | cons {r : Ref} {n : Node} {inside rs : List Ref} {ns : List Node} {below behind : List Ref}
    (found : st[r]? = some ⟨n.withChildren [], inside⟩)
    (children : Shows st inside n.children below) (others : Shows st rs ns behind) :
    Shows st (r :: rs) (n :: ns) (r :: (below ++ behind))

/-- What the references lead to are these trees. -/
def Reads (st : Store) (refs : List Ref) (ns : List Node) : Prop :=
  ∃ parts, st.Shows refs ns parts

/-- The references lead to these trees, and no object is in two places. -/
def Forest (st : Store) (refs : List Ref) (ns : List Node) : Prop :=
  ∃ parts, st.Shows refs ns parts ∧ parts.Nodup

namespace Shows

variable {parts : List Ref}

theorem parent {n : Node} {inside : List Ref}
    (found : st[r]? = some ⟨n.withChildren [], inside⟩)
    (children : st.Shows inside n.children parts) : st.Shows [r] [n] (r :: parts) := by
  simpa using cons found children .nil

/-- The first tree and those behind it. -/
theorem split {n : Node} {rs : List Ref} (forest : st.Shows (r :: rs) (n :: ns) parts) :
    ∃ first behind, st.Shows [r] [n] first ∧ st.Shows rs ns behind ∧ parts = first ++ behind := by
  cases forest with
  | cons found children others => exact ⟨_, _, parent found children, others, rfl⟩

theorem exists_children {n : Node} (forest : st.Shows [r] [n] parts) :
    ∃ inside below, st[r]? = some ⟨n.withChildren [], inside⟩ ∧
      st.Shows inside n.children below ∧ parts = r :: below := by
  cases forest with
  | cons found children others =>
    cases others
    rw [List.append_nil]
    exact ⟨_, _, found, children, rfl⟩

theorem leaf {n : Node} (found : st[r]? = some ⟨n, []⟩) (leaf : n.isContainer = false) :
    st.Shows [r] [n] [r] := by
  apply parent
  · rw [found, Node.withChildren_of_leaf leaf]
  · rw [Node.children_of_leaf leaf]
    exact .nil

theorem found_of_leaf {n : Node} (forest : st.Shows [r] [n] parts)
    (leaf : n.isContainer = false) : st[r]? = some ⟨n, []⟩ ∧ parts = [r] := by
  obtain ⟨inside, below, found, children, rfl⟩ := forest.exists_children
  rw [Node.children_of_leaf leaf] at children
  cases children
  rw [found, Node.withChildren_of_leaf leaf]
  exact ⟨rfl, rfl⟩

theorem lt_length (forest : st.Shows refs ns parts) : ∀ r ∈ parts, r < st.length := by
  induction forest with
  | nil => exact nofun
  | cons found _ _ below behind =>
    intro r mem
    rw [List.mem_cons, List.mem_append] at mem
    rcases mem with rfl | mem | mem
    · exact (List.getElem?_eq_some_iff.mp found).1
    · exact below r mem
    · exact behind r mem

/-- What is read depends only on the objects that it is made of. -/
theorem frame (forest : st.Shows refs ns parts) (same : ∀ r ∈ parts, st'[r]? = st[r]?) :
    st'.Shows refs ns parts := by
  induction forest with
  | nil => exact .nil
  | cons found _ _ below behind =>
    simp only [List.forall_mem_cons, List.forall_mem_append] at same
    obtain ⟨root, inside, others⟩ := same
    exact .cons (root.trans found) (below inside) (behind others)

theorem of_changed {touched : List Ref} (forest : st.Shows refs ns parts)
    (changed : Changed touched st st') (apart : parts.Disjoint touched) :
    st'.Shows refs ns parts :=
  forest.frame fun r mem => changed.kept r (forest.lt_length r mem) (apart mem)

theorem of_added (forest : st.Shows refs ns parts) (added : st <+: st') :
    st'.Shows refs ns parts :=
  forest.of_changed (changed_of_added added []) (List.disjoint_nil_right parts)

/-- No references lead to two different forests. -/
theorem unique {ms : List Node} {parts' : List Ref} (forest : st.Shows refs ns parts)
    (other : st.Shows refs ms parts') : ns = ms := by
  induction forest generalizing ms parts' with
  | nil =>
    cases other
    rfl
  | cons found _ _ below behind =>
    cases other with
    | cons found' children others =>
      rw [found, Option.some.injEq, Object.mk.injEq] at found'
      obtain ⟨shell, rfl⟩ := found'
      rw [Node.ext_children shell (below children), behind others]

theorem append {refs' : List Ref} {ns' : List Node} {parts' : List Ref}
    (first : st.Shows refs ns parts) (second : st.Shows refs' ns' parts') :
    st.Shows (refs ++ refs') (ns ++ ns') (parts ++ parts') := by
  induction first with
  | nil => exact second
  | cons found children _ _ behind =>
    rw [List.cons_append, List.cons_append, List.cons_append, List.append_assoc]
    exact .cons found children behind

end Shows

theorem Reads.of_added (read : st.Reads refs ns) (added : st <+: st') : st'.Reads refs ns := by
  obtain ⟨parts, forest⟩ := read
  exact ⟨parts, forest.of_added added⟩

theorem Reads.append {refs' : List Ref} {ns' : List Node} (first : st.Reads refs ns)
    (second : st.Reads refs' ns') : st.Reads (refs ++ refs') (ns ++ ns') := by
  obtain ⟨parts, forest⟩ := first
  obtain ⟨parts', forest'⟩ := second
  exact ⟨parts ++ parts', forest.append forest'⟩

theorem Reads.unique {ms : List Node} (read : st.Reads refs ns) (other : st.Reads refs ms) :
    ns = ms := by
  obtain ⟨_, forest⟩ := read
  obtain ⟨_, forest'⟩ := other
  exact forest.unique forest'

/-! ### What is read later -/

/-- The references lead to these trees, and all that these are made of is listed or newer than some
objects. -/
def ReadsWithin (st old : Store) (listed refs : List Ref) (ns : List Node) : Prop :=
  ∃ parts, st.Shows refs ns parts ∧ ∀ r ∈ parts, r ∈ listed ∨ old.length ≤ r

namespace ReadsWithin

variable {old : Store} {listed : List Ref}

theorem reads (read : st.ReadsWithin old listed refs ns) : st.Reads refs ns := by
  obtain ⟨parts, forest, -⟩ := read
  exact ⟨parts, forest⟩

theorem mono {older : Store} {more : List Ref} (read : st.ReadsWithin old listed refs ns)
    (age : older.length ≤ old.length) (sub : listed ⊆ more) :
    st.ReadsWithin older more refs ns := by
  obtain ⟨parts, forest, within⟩ := read
  refine ⟨parts, forest, fun r mem => ?_⟩
  exact (within r mem).imp (fun there => sub there) age.trans

theorem append {refs' : List Ref} {ns' : List Node} (first : st.ReadsWithin old listed refs ns)
    (second : st.ReadsWithin old listed refs' ns') :
    st.ReadsWithin old listed (refs ++ refs') (ns ++ ns') := by
  obtain ⟨parts, forest, within⟩ := first
  obtain ⟨parts', forest', within'⟩ := second
  refine ⟨parts ++ parts', forest.append forest', ?_⟩
  rw [List.forall_mem_append]
  exact ⟨within, within'⟩

theorem parent {n : Node} {inside : List Ref}
    (found : st[r]? = some ⟨n.withChildren [], inside⟩)
    (children : st.ReadsWithin old listed inside n.children) :
    st.ReadsWithin old (r :: listed) [r] [n] := by
  obtain ⟨parts, forest, within⟩ := children
  refine ⟨r :: parts, .parent found forest, ?_⟩
  rw [List.forall_mem_cons]
  refine ⟨.inl List.mem_cons_self, fun q mem => ?_⟩
  exact (within q mem).imp_left (List.mem_cons_of_mem r)

/-- A change to other old objects does not show. -/
theorem of_changed {touched : List Ref} (read : st.ReadsWithin old listed refs ns)
    (changed : Changed touched st st') (before : ∀ r ∈ touched, r < old.length)
    (apart : listed.Disjoint touched) : st'.ReadsWithin old listed refs ns := by
  obtain ⟨parts, forest, within⟩ := read
  refine ⟨parts, forest.of_changed changed fun r mem here => ?_, within⟩
  rcases within r mem with there | new
  · exact apart there here
  · exact absurd (before r here) new.not_gt

end ReadsWithin

end Store

end RawLift
