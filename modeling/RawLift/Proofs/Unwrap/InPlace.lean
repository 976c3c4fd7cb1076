import Mathlib.Data.List.Nodup
import RawLift.Proofs.Blocks.Store
import RawLift.Proofs.Step
import RawLift.Proofs.Unwrap.Tally

/-!
Unwrapping blocks that are objects. A container stays the object that it was and is given the list
of what has become of its children; a paragraph that is replaced makes way for a new object and is
itself left alone. So a list of blocks is half rewritten once it has been unwrapped: its paragraphs
are all still there, and those inside its containers are not. To unwrap it once more gives the
same result and changes nothing.
-/

namespace RawLift.Unwrap

open Node Store

/-! ### Steps -/

/-- A step on objects. It may stop at a gap. It may also have no outcome, as references may lead
round in a circle or to no object. -/
abbrev StoreStep (α : Type) := ExceptT Gap (StateT Store Option) α

namespace StoreStep

variable {α β : Type} {st st' : Store}

/-- Takes a step: what comes of it, and the objects afterwards. -/
def run (st : Store) (step : StoreStep α) : Option (Except Gap α × Store) :=
  StateT.run (ExceptT.run step) st

def object (r : Ref) : StoreStep Object := do
  let st ← get
  monadLift st[r]?

def setChildren (r : Ref) (children : List Ref) : StoreStep Unit :=
  modify fun st => st.setChildren r children

/-- Makes an object of a block without children. -/
def create (n : Node) : StoreStep Ref := do
  let st ← get
  set (st ++ [⟨n, []⟩])
  return st.length

theorem run_bind_of_ok {step : StoreStep α} {a : α} (taken : run st step = some (.ok a, st'))
    (next : α → StoreStep β) : run st (step >>= next) = run st' (next a) :=
  run_bind_of_pure_ok taken next

theorem run_bind_of_error {step : StoreStep α} {gap : Gap}
    (taken : run st step = some (.error gap, st')) (next : α → StoreStep β) :
    run st (step >>= next) = some (.error gap, st') :=
  run_bind_of_pure_error taken next

theorem run_pure (st : Store) (a : α) : run st (pure a) = some (.ok a, st) := rfl

theorem run_get (st : Store) : run st get = some (.ok st, st) := rfl

theorem run_object {r : Ref} {found : Object} (there : st[r]? = some found) :
    run st (object r) = some (.ok found, st) := by
  rw [object, run_bind_of_ok (run_get st), there]
  rfl

theorem run_setChildren (st : Store) (r : Ref) (children : List Ref) :
    run st (setChildren r children) = some (.ok (), st.setChildren r children) := rfl

theorem run_create (st : Store) (n : Node) :
    run st (create n) = some (.ok st.length, st ++ [⟨n, []⟩]) := rfl

end StoreStep

open StoreStep

/-- A block without children at a reference, and where it is afterwards. -/
def transformLeaf (o : Options) (r : Ref) (n : Node) : StoreStep Ref :=
  match o.gap? n with
  | some gap => throw gap
  | none =>
    match o.replacementOf? n with
    | some replacement => create (.rawBlock o.format.name replacement.markup)
    | none => return r

/-- Unwraps the block at a reference, and says where it is afterwards. -/
def Options.transform (o : Options) (r : Ref) : StoreStep Ref := do
  let found ← object r
  if found.block.isContainer then
    -- Piped, as a plain recursive call leaves its place in the text in the definition.
    let children ← found.children.mapM (o |>.transform)
    setChildren r children
    return r
  else transformLeaf o r found.block
partial_fixpoint

def transformBlocks (o : Options) (refs : List Ref) : StoreStep (List Ref) :=
  refs.mapM o.transform

section
variable {o : Options} {st st' st'' : Store} {r r' : Ref} {refs refs' : List Ref}

theorem transform_eq (o : Options) (r : Ref) :
    o.transform r = (do
      let found ← object r
      if found.block.isContainer then
        let children ← transformBlocks o found.children
        setChildren r children
        return r
      else transformLeaf o r found.block) := by
  rw [Options.transform]
  rfl

theorem transformBlocks_nil (o : Options) : transformBlocks o [] = pure [] := List.mapM_nil

theorem transformBlocks_cons (o : Options) (r : Ref) (refs : List Ref) :
    transformBlocks o (r :: refs) = (do
      let first ← o.transform r
      let others ← transformBlocks o refs
      return first :: others) := List.mapM_cons

theorem run_transformBlocks_nil (o : Options) (st : Store) :
    run st (transformBlocks o []) = some (.ok [], st) := by
  rw [transformBlocks_nil, run_pure]

theorem run_transformBlocks_cons (first : run st (o.transform r) = some (.ok r', st'))
    (others : run st' (transformBlocks o refs) = some (.ok refs', st'')) :
    run st (transformBlocks o (r :: refs)) = some (.ok (r' :: refs'), st'') := by
  rw [transformBlocks_cons, run_bind_of_ok first, run_bind_of_ok others, run_pure]

theorem run_transform_container {found : Object} (there : st[r]? = some found)
    (container : found.block.isContainer = true)
    (inside : run st (transformBlocks o found.children) = some (.ok refs', st')) :
    run st (o.transform r) = some (.ok r, st'.setChildren r refs') := by
  rw [transform_eq, run_bind_of_ok (run_object there), if_pos container, run_bind_of_ok inside,
    run_bind_of_ok (run_setChildren st' r refs'), run_pure]

theorem run_transform_leaf {n : Node} (there : st[r]? = some ⟨n, []⟩)
    (leaf : n.isContainer = false) : run st (o.transform r) = run st (transformLeaf o r n) := by
  rw [transform_eq, run_bind_of_ok (run_object there), if_neg (by simp [leaf])]

/-! ### Gaps -/

theorem run_transform_leaf_of_gap {n : Node} {gap : Gap} (there : st[r]? = some ⟨n, []⟩)
    (leaf : n.isContainer = false) (stops : o.gap? n = some gap) :
    run st (o.transform r) = some (.error gap, st) := by
  rw [run_transform_leaf there leaf, transformLeaf, stops]
  rfl

theorem run_transform_container_of_gap {found : Object} {gap : Gap}
    (there : st[r]? = some found) (container : found.block.isContainer = true)
    (inside : run st (transformBlocks o found.children) = some (.error gap, st')) :
    run st (o.transform r) = some (.error gap, st') := by
  rw [transform_eq, run_bind_of_ok (run_object there), if_pos container, run_bind_of_error inside]

theorem run_transformBlocks_of_first {gap : Gap}
    (first : run st (o.transform r) = some (.error gap, st')) :
    run st (transformBlocks o (r :: refs)) = some (.error gap, st') := by
  rw [transformBlocks_cons, run_bind_of_error first]

theorem run_transformBlocks_of_others {gap : Gap}
    (first : run st (o.transform r) = some (.ok r', st'))
    (others : run st' (transformBlocks o refs) = some (.error gap, st'')) :
    run st (transformBlocks o (r :: refs)) = some (.error gap, st'') := by
  rw [transformBlocks_cons, run_bind_of_ok first, run_bind_of_error others]

end

/-! ### The first time -/

/-- What has become of the objects that some blocks are made of, once these have been unwrapped.
Nothing else has changed, what is given back is the result, and the blocks that were given have
changed in place. -/
structure Transformed (o : Options) (before after : Store) (refs : List Ref) (ns : List Node)
    (parts refs' : List Ref) : Prop where
  changed : Changed parts before after
  result : after.ReadsWithin before parts refs' (blocks o ns)
  input : after.ReadsWithin before parts refs (inPlace o ns)
  same : ∀ (i : Nat) n, ns[i]? = some n → keeps o n = true → refs'[i]? = refs[i]?

section
variable {o : Options} {st st' : Store} {r : Ref} {n : Node}

theorem exists_run_transform_leaf (there : st[r]? = some ⟨n, []⟩) (leaf : n.isContainer = false)
    (whole : o.gap? n = none) :
    ∃ r' st', run st (o.transform r) = some (.ok r', st') ∧ st <+: st' ∧
      st'[r']? = some ⟨o.leaf n, []⟩ ∧ (r' = r ∨ st.length ≤ r') ∧ (keeps o n = true → r' = r) := by
  rw [run_transform_leaf there leaf, transformLeaf, whole]
  cases replaced : o.replacementOf? n with
  | none =>
    refine ⟨r, st, run_pure st r, List.prefix_rfl, ?_, .inl rfl, fun _ => rfl⟩
    rw [Options.leaf_of_kept replaced, there]
  | some replacement =>
    refine ⟨st.length, _, run_create st _, List.prefix_append _ _, ?_, .inr le_rfl, ?_⟩
    · rw [Options.leaf_of_replaced replaced, List.getElem?_concat_length]
    · simp [keeps, leaf, replaced]

theorem blocks_singleton_of_leaf (o : Options) (leaf : n.isContainer = false) :
    blocks o [n] = [o.leaf n] := by
  rw [blocks, mapLeavesAll_eq_map, List.map_singleton, mapLeaves_of_leaf leaf]

theorem changedInPlace_of_leaf (o : Options) (leaf : n.isContainer = false) :
    changedInPlace o n = n := by
  simp [changedInPlace, leaf]

theorem changedInPlace_of_container (o : Options) (container : n.isContainer = true) :
    changedInPlace o n = block o n := by
  rw [changedInPlace, if_pos container]

theorem exists_transformed_leaf {parts : List Ref} (forest : st.Shows [r] [n] parts)
    (leaf : n.isContainer = false) (whole : o.gap? n = none) :
    ∃ r' st', run st (o.transform r) = some (.ok r', st') ∧
      Transformed o st st' [r] [n] parts [r'] := by
  obtain ⟨there, rfl⟩ := forest.found_of_leaf leaf
  obtain ⟨r', st', taken, added, there', old, kept⟩ := exists_run_transform_leaf there leaf whole
  refine ⟨r', st', taken, changed_of_added added [r], ⟨[r'], ?_, ?_⟩, ⟨[r], ?_, ?_⟩, ?_⟩
  · rw [blocks_singleton_of_leaf o leaf]
    exact .leaf there' (o.isContainer_leaf n leaf)
  · simpa using old
  · rw [inPlace, List.map_singleton, changedInPlace_of_leaf o leaf]
    exact forest.of_added added
  · simp
  · intro i m here kept'
    cases i with
    | zero =>
      cases here
      rw [kept kept']
    | succ i => cases here

theorem block_of_container (o : Options) (container : n.isContainer = true) :
    block o n = n.withChildren (blocks o n.children) := by
  cases n with
  | blockQuote | div | figure => rfl
  | _ => cases container

theorem gap?_container (o : Options) (container : n.isContainer = true) :
    gap? o [n] = gap? o n.children := by
  rw [gap?, leavesAll_singleton, leaves_of_container container, gap?]

theorem transformed_container {inside inside' below : List Ref}
    (there : st[r]? = some ⟨n.withChildren [], inside⟩) (container : n.isContainer = true)
    (apart : r ∉ below) (children : Transformed o st st' inside n.children below inside') :
    Transformed o st (st'.setChildren r inside') [r] [n] (r :: below) [r] := by
  have old : r < st.length := (List.getElem?_eq_some_iff.mp there).1
  have set := changed_setChildren st' r inside'
  have there' : (st'.setChildren r inside')[r]? = some ⟨n.withChildren [], inside'⟩ :=
    getElem?_setChildren_self ((children.changed.kept r old apart).trans there) inside'
  have read : (st'.setChildren r inside').ReadsWithin st (r :: below) [r] [block o n] := by
    have kept := children.result.of_changed set (by simpa using old) (by simpa using apart)
    rw [block_of_container o container]
    apply ReadsWithin.parent
    · rw [there', withChildren_withChildren]
    · rwa [children_withChildren container]
  refine ⟨?_, read, ?_, ?_⟩
  · exact (children.changed.mono (List.subset_cons_self r below)).trans
      (set.mono (by simp))
  · rw [inPlace, List.map_singleton, changedInPlace_of_container o container]
    exact read
  · exact fun _ _ _ _ => rfl

theorem transformed_cons {st'' : Store} {r' : Ref} {refs refs' : List Ref} {ns : List Node}
    {parts behind : List Ref} (old : ∀ r ∈ behind, r < st.length)
    (apart : parts.Disjoint behind) (first : Transformed o st st' [r] [n] parts [r'])
    (others : Transformed o st' st'' refs ns behind refs') :
    Transformed o st st'' (r :: refs) (n :: ns) (parts ++ behind) (r' :: refs') := by
  have left := List.subset_append_left parts behind
  have right := List.subset_append_right parts behind
  refine ⟨?_, ?_, ?_, ?_⟩
  · exact (first.changed.mono left).trans (others.changed.mono right)
  · exact ((first.result.of_changed others.changed old apart).mono le_rfl left).append
      (others.result.mono first.changed.grown right)
  · exact ((first.input.of_changed others.changed old apart).mono le_rfl left).append
      (others.input.mono first.changed.grown right)
  · intro i m here kept
    cases i with
    | zero => exact first.same 0 m here kept
    | succ i => exact others.same i m here kept

end

theorem exists_transformed_tree {o : Options} {st : Store} {r : Ref} {parts : List Ref} {n : Node}
    (inside : ∀ {st : Store} {refs parts : List Ref}, st.Shows refs n.children parts →
      parts.Nodup → gap? o n.children = none → ∃ refs' st',
        run st (transformBlocks o refs) = some (.ok refs', st') ∧
          Transformed o st st' refs n.children parts refs')
    (forest : st.Shows [r] [n] parts) (distinct : parts.Nodup) (whole : gap? o [n] = none) :
    ∃ r' st', run st (o.transform r) = some (.ok r', st') ∧
      Transformed o st st' [r] [n] parts [r'] := by
  cases container : n.isContainer with
  | false =>
    rw [gap?_leaf o container] at whole
    exact exists_transformed_leaf forest container whole
  | true =>
    obtain ⟨refs, below, there, children, rfl⟩ := forest.exists_children
    obtain ⟨apart, distinct⟩ := List.nodup_cons.mp distinct
    rw [gap?_container o container] at whole
    obtain ⟨refs', st', taken, transformed⟩ := inside children distinct whole
    exact ⟨r, _, run_transform_container there (by simpa) taken,
      transformed_container there container apart transformed⟩

/-- A walk on the objects of a forest comes to its end, and what they are read as has changed as the
trees are said to. -/
theorem exists_transformed {o : Options} {st : Store} {refs parts : List Ref} {ns : List Node}
    (forest : st.Shows refs ns parts) (distinct : parts.Nodup) (whole : gap? o ns = none) :
    ∃ refs' st', run st (transformBlocks o refs) = some (.ok refs', st') ∧
      Transformed o st st' refs ns parts refs' := by
  -- For all objects at once: those of a container's children, and those behind a tree, are walked
  -- when others have changed. None of theirs have, as no object is in two places.
  induction ns using forest_induction generalizing st refs parts with
  | nil =>
    cases forest
    refine ⟨[], st, run_transformBlocks_nil o st, ⟨le_rfl, fun _ _ _ => rfl⟩, ?_, ?_, nofun⟩
    · exact ⟨[], .nil, nofun⟩
    · exact ⟨[], .nil, nofun⟩
  | cons n ns below behind =>
    cases refs with
    | nil => cases forest
    | cons r rs =>
    obtain ⟨first, others, tree, rest, rfl⟩ := forest.split
    obtain ⟨distinct, distinct', apart⟩ := List.nodup_append'.mp distinct
    rw [gap?_cons, Option.or_eq_none_iff] at whole
    obtain ⟨r', st', taken, transformed⟩ := exists_transformed_tree below tree distinct whole.1
    have rest' := rest.of_changed transformed.changed (List.disjoint_symm apart)
    obtain ⟨rs', st'', taken', transformed'⟩ := behind rest' distinct' whole.2
    exact ⟨r' :: rs', st'', run_transformBlocks_cons taken taken',
      transformed_cons rest.lt_length apart transformed transformed'⟩

theorem exists_run_tree_of_gap {o : Options} {st : Store} {r : Ref} {parts : List Ref} {n : Node}
    {gap : Gap}
    (inside : ∀ {st : Store} {refs parts : List Ref}, st.Shows refs n.children parts →
      parts.Nodup → gap? o n.children = some gap →
        ∃ st', run st (transformBlocks o refs) = some (.error gap, st'))
    (forest : st.Shows [r] [n] parts) (distinct : parts.Nodup) (stops : gap? o [n] = some gap) :
    ∃ st', run st (o.transform r) = some (.error gap, st') := by
  cases container : n.isContainer with
  | false =>
    rw [gap?_leaf o container] at stops
    obtain ⟨there, -⟩ := forest.found_of_leaf container
    exact ⟨st, run_transform_leaf_of_gap there container stops⟩
  | true =>
    obtain ⟨refs, below, there, children, rfl⟩ := forest.exists_children
    rw [gap?_container o container] at stops
    obtain ⟨st', stopped⟩ := inside children (List.nodup_cons.mp distinct).2 stops
    exact ⟨st', run_transform_container_of_gap there (by simpa) stopped⟩

/-- A gap stops a walk on objects as it stops any other. -/
theorem exists_run_of_gap {o : Options} {st : Store} {refs parts : List Ref} {ns : List Node}
    {gap : Gap} (forest : st.Shows refs ns parts) (distinct : parts.Nodup)
    (stops : gap? o ns = some gap) :
    ∃ st', run st (transformBlocks o refs) = some (.error gap, st') := by
  induction ns using forest_induction generalizing st refs parts with
  | nil => cases stops
  | cons n ns below behind =>
    cases refs with
    | nil => cases forest
    | cons r rs =>
    obtain ⟨first, others, tree, rest, rfl⟩ := forest.split
    obtain ⟨distinct, distinct', apart⟩ := List.nodup_append'.mp distinct
    rw [gap?_cons] at stops
    cases whole : gap? o [n] with
    | none =>
      rw [whole, Option.none_or] at stops
      obtain ⟨r', st', taken, transformed⟩ :=
        exists_transformed_tree exists_transformed tree distinct whole
      have rest' := rest.of_changed transformed.changed (List.disjoint_symm apart)
      obtain ⟨st'', stopped⟩ := behind rest' distinct' stops
      exact ⟨st'', run_transformBlocks_of_others taken stopped⟩
    | some first =>
      rw [whole, Option.some_or] at stops
      cases stops
      obtain ⟨st', stopped⟩ := exists_run_tree_of_gap below tree distinct whole
      exact ⟨st', run_transformBlocks_of_first stopped⟩

/-! ### Once more -/

section
variable {o : Options} {st : Store} {r : Ref} {refs parts : List Ref} {n : Node} {ns : List Node}

theorem run_transform_of_children {inside : List Ref}
    (there : st[r]? = some ⟨n.withChildren [], inside⟩) (container : n.isContainer = true)
    (children : run st (transformBlocks o inside) = some (.ok inside, st)) :
    run st (o.transform r) = some (.ok r, st) := by
  rw [run_transform_container there (by simpa) children, setChildren_of_same there]

/-- Where no paragraph is left to replace, all stays as it is. -/
theorem run_transformBlocks_of_settled (forest : st.Shows refs ns parts)
    (settled : ∀ n ∈ leavesAll ns, o.gap? n = none ∧ o.replacementOf? n = none) :
    run st (transformBlocks o refs) = some (.ok refs, st) := by
  induction forest with
  | nil => exact run_transformBlocks_nil o st
  | @cons r n inside rs ns _ _ found children _ below behind =>
    rw [leavesAll_cons, List.forall_mem_append] at settled
    refine run_transformBlocks_cons ?_ (behind settled.2)
    cases container : n.isContainer with
    | false =>
      rw [leaves_of_leaf container, List.forall_mem_singleton] at settled
      obtain ⟨there, -⟩ := (Shows.parent found children).found_of_leaf container
      rw [run_transform_leaf there container, transformLeaf, settled.1.1, settled.1.2]
      exact run_pure st r
    | true =>
      rw [leaves_of_container container] at settled
      exact run_transform_of_children found container (below settled.1)

theorem Options.gap?_leaf_eq_none (whole : o.gap? n = none) : o.gap? (o.leaf n) = none := by
  cases replaced : o.replacementOf? n with
  | none => rwa [leaf_of_kept replaced]
  | some r =>
    rw [leaf_of_replaced replaced]
    rfl

theorem settled_blocks (whole : gap? o ns = none) :
    ∀ n ∈ leavesAll (blocks o ns), o.gap? n = none ∧ o.replacementOf? n = none := by
  rw [leavesAll_blocks, List.forall_mem_map]
  intro n mem
  have free : o.gap? n = none := by simpa using (gap?_eq_none_iff o).mp whole n mem
  exact ⟨Options.gap?_leaf_eq_none free, (Options.Narrower.refl o).replacementOf?_leaf n⟩

/-- A container that has changed in place is found as it is to be, and a leaf is replaced anew. -/
theorem exists_transform_again (forest : st.Shows [r] [changedInPlace o n] parts)
    (whole : gap? o [n] = none) :
    ∃ r' st', run st (o.transform r) = some (.ok r', st') ∧ st <+: st' ∧
      st'.Reads [r'] [block o n] := by
  cases container : n.isContainer with
  | false =>
    rw [changedInPlace_of_leaf o container] at forest
    rw [gap?_leaf o container] at whole
    obtain ⟨there, -⟩ := forest.found_of_leaf container
    obtain ⟨r', st', taken, added, there', -, -⟩ := exists_run_transform_leaf there container whole
    refine ⟨r', st', taken, added, [r'], ?_⟩
    rw [block, mapLeaves_of_leaf container]
    exact .leaf there' (o.isContainer_leaf n container)
  | true =>
    rw [changedInPlace_of_container o container] at forest
    obtain ⟨inside, below, there, children, -⟩ := forest.exists_children
    have container' : (block o n).isContainer = true := by
      rw [block_of_container o container, isContainer_withChildren, container]
    rw [block_of_container o container, children_withChildren container] at children
    rw [gap?_container o container] at whole
    have settled := run_transformBlocks_of_settled children (settled_blocks whole)
    exact ⟨r, st, run_transform_of_children there container' settled, List.prefix_rfl, _, forest⟩

theorem exists_transformBlocks_again (forest : st.Shows refs (inPlace o ns) parts)
    (whole : gap? o ns = none) :
    ∃ refs' st', run st (transformBlocks o refs) = some (.ok refs', st') ∧ st <+: st' ∧
      st'.Reads refs' (blocks o ns) := by
  induction ns generalizing st refs parts with
  | nil =>
    cases forest
    exact ⟨[], st, run_transformBlocks_nil o st, List.prefix_rfl, [], .nil⟩
  | cons n ns behind =>
    cases refs with
    | nil => cases forest
    | cons r rs =>
    obtain ⟨_, _, tree, rest, -⟩ := forest.split
    rw [gap?_cons, Option.or_eq_none_iff] at whole
    obtain ⟨r', st', taken, added, read⟩ := exists_transform_again tree whole.1
    obtain ⟨rs', st'', taken', added', read'⟩ := behind (rest.of_added added) whole.2
    exact ⟨r' :: rs', st'', run_transformBlocks_cons taken taken', added.trans added',
      (read.of_added added').append read'⟩

end

/-- Blocks of which only what is in containers has been unwrapped, beside what they were and the
result. -/
structure HalfRewritten (before result after : List Node) : Prop where
  length : after.length = before.length
  flat : ∀ (i : Nat) n, before[i]? = some n → n.isContainer = false → after[i]? = some n
  container : ∀ (i : Nat) n, before[i]? = some n → n.isContainer = true → after[i]? = result[i]?

theorem halfRewritten_inPlace (o : Options) (ns : List Node) :
    HalfRewritten ns (blocks o ns) (inPlace o ns) where
  length := List.length_map _
  flat i n here leaf := by
    rw [inPlace, List.getElem?_map, here, Option.map_some, changedInPlace_of_leaf o leaf]
  container i n here container := by
    rw [inPlace, List.getElem?_map, here, Option.map_some, changedInPlace_of_container o container,
      blocks, mapLeavesAll_eq_map, List.getElem?_map, here, Option.map_some, block]

theorem HalfRewritten.unique {before result after after' : List Node}
    (half : HalfRewritten before result after) (half' : HalfRewritten before result after') :
    after = after' := by
  apply List.ext_getElem?
  intro i
  cases here : before[i]? with
  | none =>
    have beyond := List.getElem?_eq_none_iff.mp here
    rw [List.getElem?_eq_none (half.length ▸ beyond), List.getElem?_eq_none (half'.length ▸ beyond)]
  | some n =>
    cases leaf : n.isContainer with
    | false => rw [half.flat i n here leaf, half'.flat i n here leaf]
    | true => rw [half.container i n here leaf, half'.container i n here leaf]

/-- Unwrapping blocks leaves them half rewritten, unless a gap stops it, and the containers in the
result are the very objects that were given. Unwrapping what is left gives an equal result once
more; by then no object has changed, so the blocks and the first result are what they were. -/
theorem transformBlocks_again {o : Options} {st : Store} {refs : List Ref} {ns : List Node}
    (forest : st.Forest refs ns) :
    (∀ gap, gap? o ns = some gap →
      ∃ after, run st (transformBlocks o refs) = some (.error gap, after)) ∧
    (gap? o ns = none → ∃ first after left,
      run st (transformBlocks o refs) = some (.ok first, after) ∧
      after.Reads first (blocks o ns) ∧
      after.Reads refs left ∧ HalfRewritten ns (blocks o ns) left ∧
      (∀ (i : Nat) n, ns[i]? = some n → keeps o n = true → first[i]? = refs[i]?) ∧
      ∃ second last,
        run after (transformBlocks o refs) = some (.ok second, last) ∧
        last.Reads second (blocks o ns) ∧
        after <+: last ∧ last.Reads first (blocks o ns) ∧ last.Reads refs left) := by
  obtain ⟨parts, shown, distinct⟩ := forest
  refine ⟨fun gap stops => exists_run_of_gap shown distinct stops, fun whole => ?_⟩
  obtain ⟨first, after, taken, transformed⟩ := exists_transformed shown distinct whole
  have result := transformed.result.reads
  have left := transformed.input.reads
  have ⟨_, shown'⟩ := left
  obtain ⟨second, last, taken', added, result'⟩ := exists_transformBlocks_again shown' whole
  exact ⟨first, after, inPlace o ns, taken, result, left, halfRewritten_inPlace o ns,
    transformed.same, second, last, taken', result', added, result.of_added added,
    left.of_added added⟩

/-- A tag, and another one in a quote. -/
def quotedTags : List Node :=
  [.paragraph "Para" [.text "Str" "<hr>"], .blockQuote [.paragraph "Para" [.text "Str" "<br>"]]]

def quotedTagStore : Store :=
  [⟨.paragraph "Para" [.text "Str" "<hr>"], []⟩, ⟨.blockQuote [], [2]⟩,
    ⟨.paragraph "Para" [.text "Str" "<br>"], []⟩]

theorem forest_quotedTags : quotedTagStore.Forest [0, 1] quotedTags := by
  have tag : quotedTagStore.Shows [0] [.paragraph "Para" [.text "Str" "<hr>"]] [0] :=
    .leaf rfl rfl
  have quoted : quotedTagStore.Shows [2] [.paragraph "Para" [.text "Str" "<br>"]] [2] :=
    .leaf rfl rfl
  have quote : quotedTagStore.Shows [1]
      [.blockQuote [.paragraph "Para" [.text "Str" "<br>"]]] [1, 2] := .parent rfl quoted
  exact ⟨[0, 1, 2], tag.append quote, by decide⟩

theorem transformBlocks_again_quotedTags :
    quotedTagStore.Forest [0, 1] quotedTags ∧ gap? {} quotedTags = none ∧
      ∃ first after second last,
        run quotedTagStore (transformBlocks {} [0, 1]) = some (.ok first, after) ∧
        after.Reads [0, 1] [.paragraph "Para" [.text "Str" "<hr>"],
          .blockQuote [.rawBlock "html" "<br>"]] ∧
        run after (transformBlocks {} [0, 1]) = some (.ok second, last) ∧ after <+: last ∧
        last.Reads second [.rawBlock "html" "<hr>", .blockQuote [.rawBlock "html" "<br>"]] := by
  have whole : gap? {} quotedTags = none := rfl
  obtain ⟨first, after, left, taken, -, read, half, -, second, last, taken', result, added, -⟩ :=
    (transformBlocks_again forest_quotedTags).2 whole
  have known : left = inPlace {} quotedTags := half.unique (halfRewritten_inPlace {} quotedTags)
  subst known
  exact ⟨forest_quotedTags, whole, first, after, second, last, taken, read, taken', added, result⟩

end RawLift.Unwrap
