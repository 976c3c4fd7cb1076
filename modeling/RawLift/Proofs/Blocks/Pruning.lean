import RawLift.Gap
import RawLift.Proofs.Blocks.Outline
import RawLift.Proofs.Step

/-!
A walk that drops some kinds of block, step by step. It records each block that it comes to, leaves
a dropped one at once, and changes a container as soon as the walk over its children is over. In the
end it has recorded the forest in preorder, but for what is below a dropped block, and what is left
is the forest without the dropped blocks and all below them.
-/

namespace RawLift

namespace Prune

/-! ### The walk -/

/-- Records a visit. A dropped block goes, and any other is followed up. -/
def visiting {α : Type} (drop : Kind → Bool) (kind : Kind) (followUp : Step (List Kind) α) :
    Step (List Kind) (Option α) := do
  modify (· ++ [kind])
  if drop kind then return none
  return some (← followUp)

mutual
def visit (drop : Kind → Bool) : Node → Step (List Kind) (Option Node)
  | .blockQuote children order =>
    visiting drop .blockQuote do return .blockQuote (← visitAll drop children) order
  | .div attributes children order =>
    visiting drop .div do return .div attributes (← visitAll drop children) order
  | .figure attributes caption children order =>
    visiting drop .figure do return .figure attributes caption (← visitAll drop children) order
  | .stray typeName => throw (.notANode typeName)
  | n => visiting drop n.kind (match n.gap? with
    | some gap => throw gap
    | none => return n)

/-- Visits the blocks in order and keeps what is left of them. -/
def visitAll (drop : Kind → Bool) : List Node → Step (List Kind) (List Node)
  | [] => return []
  | n :: ns => do
    let kept ← visit drop n
    return kept.toList ++ (← visitAll drop ns)
end

def visitDocument (drop : Kind → Bool) (d : Document) : Step (List Kind) (Option Document) :=
  visiting drop .document (match d.blocks with
    | none => return d
    | some ns => return { d with blocks := some (← visitAll drop ns) })

end Prune

namespace Node

variable {drop : Kind → Bool}

def Line.kind (line : Line) : Kind := line.block.kind

/-- The block is in no dropped container, so a walk comes to it. -/
def Line.isReached (drop : Kind → Bool) (line : Line) : Bool := line.around.all fun k => !drop k

/-- The block is reached and is not of a dropped kind itself. -/
def Line.stays (drop : Kind → Bool) (line : Line) : Bool := line.isReached drop && !drop line.kind

/-! ### One block -/

theorem visits_eq (n : Node) :
    visits drop n = n.kind :: if drop n.kind then [] else visitsAll drop n.children := by
  cases n with
  | blockQuote | div | figure => rfl
  | _ => exact congrArg _ (ite_self []).symm

theorem prune_eq (n : Node) :
    prune drop n =
      if drop n.kind then none else some (n.withChildren (pruneAll drop n.children)) := by
  cases n <;> rfl

theorem gap?_withChildren (n : Node) (ns : List Node) : (n.withChildren ns).gap? = n.gap? := by
  cases n <;> rfl

theorem children_withChildren_pruneAll (n : Node) :
    (n.withChildren (pruneAll drop n.children)).children = pruneAll drop n.children := by
  cases n <;> rfl

theorem pruneGap?_eq {n : Node} (node : n.kind ≠ .stray) :
    pruneGap? drop n =
      if drop n.kind then none else n.gap?.or (pruneGapAll? drop n.children) := by
  cases n with
  | blockQuote | div | figure => rfl
  | stray => exact absurd rfl node
  | _ => exact congrArg (ite _ none) (Option.or_none).symm

/-- A walk stops at an object that is no node, and at a gap of a block that it does not drop. -/
theorem pruneGap?_eq_none_iff {n : Node} : pruneGap? drop n = none ↔
    n.kind ≠ .stray ∧
      (drop n.kind = true ∨ n.gap? = none ∧ pruneGapAll? drop n.children = none) := by
  by_cases node : n.kind = .stray
  · cases n with
    | stray => simp [pruneGap?, node]
    | whitespace shape => cases shape <;> cases node
    | hollow shell => cases shell <;> cases node
    | _ => cases node
  · rw [pruneGap?_eq node]
    by_cases dropped : drop n.kind = true
    · simp [node, dropped]
    · rw [if_neg dropped, Option.or_eq_none_iff]
      simp [node, dropped]

theorem pruneGapAll?_cons_eq_none {n : Node} {ns : List Node} :
    pruneGapAll? drop (n :: ns) = none ↔
      pruneGap? drop n = none ∧ pruneGapAll? drop ns = none := by
  rw [pruneGapAll?, Option.or_eq_none_iff]

/-! ### Whole forests -/

/-- A walk that drops more comes to fewer gaps. -/
theorem pruneGapAll?_mono {drop' : Kind → Bool} (more : ∀ k, drop k = true → drop' k = true)
    {ns : List Node} (free : pruneGapAll? drop ns = none) : pruneGapAll? drop' ns = none := by
  induction ns using forest_induction with
  | nil => rfl
  | cons n ns below behind =>
    obtain ⟨first, later⟩ := pruneGapAll?_cons_eq_none.mp free
    obtain ⟨node, reached⟩ := pruneGap?_eq_none_iff.mp first
    have reached' := reached.imp (more n.kind) (And.imp_right below)
    exact pruneGapAll?_cons_eq_none.mpr
      ⟨pruneGap?_eq_none_iff.mpr ⟨node, reached'⟩, behind later⟩

/-- What a walk leaves has no gaps for another. -/
theorem pruneGapAll?_pruneAll (drop' : Kind → Bool) {ns : List Node}
    (free : pruneGapAll? drop ns = none) : pruneGapAll? drop' (pruneAll drop ns) = none := by
  induction ns using forest_induction with
  | nil => rfl
  | cons n ns below behind =>
    obtain ⟨first, later⟩ := pruneGapAll?_cons_eq_none.mp free
    obtain ⟨node, reached⟩ := pruneGap?_eq_none_iff.mp first
    rw [pruneAll, prune_eq]
    by_cases dropped : drop n.kind = true
    · rw [if_pos dropped]
      exact behind later
    · obtain ⟨gap, inside⟩ := reached.resolve_left dropped
      rw [if_neg dropped]
      refine pruneGapAll?_cons_eq_none.mpr ⟨pruneGap?_eq_none_iff.mpr ?_, behind later⟩
      rw [kind_withChildren, gap?_withChildren, children_withChildren_pruneAll]
      exact ⟨node, .inr ⟨gap, below inside⟩⟩

/-! ### Outlines -/

section
variable {around : List Kind} (clear : ∀ k ∈ around, drop k = false)

/-- Nothing in a dropped container is reached. -/
theorem isReached_eq_false {kind : Kind} (dropped : drop kind = true) {ns : List Node} {line : Line}
    (mem : line ∈ outline (around ++ [kind]) ns) : line.isReached drop = false := by
  have inside : kind ∈ line.around :=
    (prefix_of_mem_outline mem).subset (List.mem_append_right around List.mem_cons_self)
  rw [Line.isReached, List.all_eq_false]
  exact ⟨kind, inside, by simp [dropped]⟩

include clear

theorem isReached_of_clear (n : Node) : Line.isReached drop ⟨around, n⟩ = true := by
  simpa [Line.isReached] using clear

theorem clear_append {kind : Kind} (kept : drop kind = false) :
    ∀ k ∈ around ++ [kind], drop k = false := by
  rw [List.forall_mem_append]
  exact ⟨clear, by simpa using kept⟩

theorem visitsAll_eq_filter (ns : List Node) :
    visitsAll drop ns = ((outline around ns).filter (Line.isReached drop)).map Line.kind := by
  induction ns using forest_induction generalizing around with
  | nil => rfl
  | cons n ns below behind =>
    rw [visitsAll, visits_eq, outline_cons, List.filter_cons_of_pos (isReached_of_clear clear _),
      List.filter_append, List.map_cons, List.map_append, ← behind clear, Line.kind,
      kind_withChildren, List.cons_append]
    congr 2
    by_cases dropped : drop n.kind = true
    · rw [if_pos dropped, List.filter_eq_nil_iff.mpr]
      · rfl
      · intro line mem
        simp [isReached_eq_false dropped mem]
    · rw [if_neg dropped]
      exact below (clear_append clear (Bool.eq_false_iff.mpr dropped))

theorem outline_pruneAll (ns : List Node) :
    outline around (pruneAll drop ns) = (outline around ns).filter (Line.stays drop) := by
  induction ns using forest_induction generalizing around with
  | nil => rfl
  | cons n ns below behind =>
    have reached := isReached_of_clear clear (n.withChildren [])
    rw [pruneAll, prune_eq, outline_cons, List.filter_cons, List.filter_append, ← behind clear,
      Line.stays, reached, Line.kind, kind_withChildren]
    by_cases dropped : drop n.kind = true
    -- A dropped block takes the lines below it along, though their own kinds may stay.
    · rw [if_pos dropped, List.filter_eq_nil_iff.mpr]
      · simp [dropped]
      · intro line mem
        simp [Line.stays, isReached_eq_false dropped mem]
    · have kept := Bool.eq_false_iff.mpr dropped
      rw [if_neg dropped, ← below (clear_append clear kept)]
      simp [kept, outline_cons, children_withChildren_pruneAll]

end

end Node

namespace Prune

open Node Step

variable {drop : Kind → Bool}

theorem run_visiting {α : Type} (seen : List Kind) (kind : Kind) (followUp : Step (List Kind) α) :
    run seen (visiting drop kind followUp) =
      if drop kind then (.ok none, seen ++ [kind])
      else ((run (seen ++ [kind]) followUp).1.map some, (run (seen ++ [kind]) followUp).2) := by
  rw [visiting, run_bind_of_ok (run_modify seen (· ++ [kind]))]
  by_cases dropped : drop kind = true
  · simp only [dropped, if_true]
    rfl
  · simp only [dropped]
    exact run_map _ _ some

theorem run_visit_dropped {n : Node} (node : n.kind ≠ .stray) (dropped : drop n.kind = true)
    (seen : List Kind) : run seen (visit drop n) = (.ok none, seen ++ [n.kind]) := by
  have left {α : Type} (followUp : Step (List Kind) α) :
      run seen (visiting drop n.kind followUp) = (.ok none, seen ++ [n.kind]) := by
    rw [run_visiting, if_pos dropped]
  cases n with
  | stray => exact absurd rfl node
  | _ => exact left _

theorem run_visit_kept {n : Node} (gap : n.gap? = none) (kept : drop n.kind = false)
    {seen seen' : List Kind} {ns : List Node}
    (below : run (seen ++ [n.kind]) (visitAll drop n.children) = (.ok ns, seen')) :
    run seen (visit drop n) = (.ok (some (n.withChildren ns)), seen') := by
  have base : visit drop n = visiting drop n.kind do
      return n.withChildren (← visitAll drop n.children) := by
    cases n with
    | stray => cases gap
    | hollow shell =>
      cases shell with
      | blockQuote | div | figure => cases gap
      | paragraph | image => rfl
    | _ => rfl
  rw [base, run_visiting, run_map, below, kept]
  rfl

/-- A walk that no gap stops leaves the forest without what it drops, and records what it visits
behind what has been recorded before. -/
theorem run_visitAll {ns : List Node} (free : pruneGapAll? drop ns = none) (seen : List Kind) :
    run seen (visitAll drop ns) = (.ok (pruneAll drop ns), seen ++ visitsAll drop ns) := by
  induction ns using forest_induction generalizing seen with
  | nil =>
    rw [visitsAll, List.append_nil]
    rfl
  | cons n ns below behind =>
    obtain ⟨first, later⟩ := pruneGapAll?_cons_eq_none.mp free
    obtain ⟨node, reached⟩ := pruneGap?_eq_none_iff.mp first
    rw [visitAll, pruneAll, prune_eq, visitsAll, visits_eq]
    by_cases dropped : drop n.kind = true
    · rw [run_bind_of_ok (run_visit_dropped node dropped seen), run_map, behind later,
        if_pos dropped, if_pos dropped, List.append_assoc]
      rfl
    · obtain ⟨gap, inside⟩ := reached.resolve_left dropped
      have kept : drop n.kind = false := Bool.eq_false_iff.mpr dropped
      have walked := run_visit_kept gap kept (below inside (seen ++ [n.kind]))
      rw [run_bind_of_ok walked, run_map, behind later, if_neg dropped, if_neg dropped,
        List.append_assoc, List.append_assoc]
      rfl

theorem run_visitDocument {d : Document} (free : pruneGapAll? drop (d.blocks.getD []) = none) :
    run [] (visitDocument drop d) = (.ok (d.prune drop), d.visits drop) := by
  obtain ⟨blocks, metadata, extra, keyOrder⟩ := d
  rw [visitDocument, run_visiting, Document.prune, Document.visits]
  by_cases dropped : drop .document = true
  · simp only [dropped, if_true]
    rfl
  · simp only [dropped]
    cases blocks with
    | none => rfl
    | some ns =>
      have inside : pruneGapAll? drop ns = none := free
      simp only [run_map, run_visitAll inside]
      rfl

/-- A walk drops in one go what two walks drop one after the other. -/
theorem pruneAll_pruneAll (drop drop' : Kind → Bool) (ns : List Node) :
    pruneAll drop' (pruneAll drop ns) = pruneAll (fun k => drop k || drop' k) ns := by
  have clear (drop : Kind → Bool) : ∀ k ∈ ([] : List Kind), drop k = false := by simp
  have stays (line : Line) : line.stays (fun k => drop k || drop' k) =
      (line.stays drop && line.stays drop') := by
    rw [Bool.eq_iff_iff]
    simp only [Line.stays, Line.isReached, Bool.not_or, Bool.and_eq_true, List.all_eq_true]
    grind
  have same : outline [] (pruneAll drop' (pruneAll drop ns)) =
      outline [] (pruneAll (fun k => drop k || drop' k) ns) := by
    rw [outline_pruneAll (clear _), outline_pruneAll (clear _), outline_pruneAll (clear _),
      List.filter_filter]
    exact List.filter_congr fun line _ => by rw [stays, Bool.and_comm]
  exact outline_injective same

/-- A walk records the blocks that are in no dropped container, in preorder. What it leaves is the
one forest whose lines are those of the blocks that it records and does not drop. -/
theorem run_visitAll_outline {ns : List Node} (free : pruneGapAll? drop ns = none) :
    let visited := ((outline [] ns).filter (Line.isReached drop)).map Line.kind
    run [] (visitAll drop ns) = (.ok (pruneAll drop ns), visited) ∧
      (∀ forest, forest = pruneAll drop ns ↔
        outline [] forest = (outline [] ns).filter (Line.stays drop)) ∧
      (∀ drop' : Kind → Bool, let both := fun k => drop k || drop' k
        (run [] (visitAll both ns)).1 = .ok (pruneAll both ns) ∧
          (run [] (visitAll drop' (pruneAll drop ns))).1 = .ok (pruneAll both ns)) ∧
      ∀ d : Document, d.blocks.getD [] = ns → run [] (visitDocument drop d) =
        if drop .document then (.ok none, [.document])
        else
          (.ok (some { d with blocks := d.blocks.map (pruneAll drop) }), .document :: visited) := by
  have clear : ∀ k ∈ ([] : List Kind), drop k = false := by simp
  have visited := visitsAll_eq_filter clear ns
  have left := outline_pruneAll clear ns
  refine ⟨?_, fun forest => ⟨fun same => same ▸ left, fun same => ?_⟩, fun drop' => ⟨?_, ?_⟩,
    fun d blocks => ?_⟩
  · rw [run_visitAll free, List.nil_append, visited]
  · exact outline_injective (same.trans left.symm)
  · have more : ∀ k, drop k = true → (drop k || drop' k) = true := by simp +contextual
    rw [run_visitAll (pruneGapAll?_mono more free)]
  · rw [run_visitAll (pruneGapAll?_pruneAll drop' free), pruneAll_pruneAll]
  · rw [run_visitDocument (blocks ▸ free), Document.prune, Document.visits, blocks, visited]
    split <;> rfl

/-- A quote of a division that holds an object that is no node, and a figure of a division and a
paragraph. -/
def dividedBlocks : List Node :=
  [.blockQuote [.div none [.stray "str"]],
   .figure none .null [.div none [.verbatim .null], .paragraph "Para" [.text "Str" "x"]]]

theorem run_visitAll_dividedBlocks :
    let drop : Kind → Bool := fun k => k = .div
    pruneGapAll? drop dividedBlocks = none ∧
      run [] (visitAll drop dividedBlocks) =
        (.ok [.blockQuote [], .figure none .null [.paragraph "Para" [.text "Str" "x"]]],
          [.blockQuote, .div, .figure, .div, .paragraph]) := by
  intro drop
  have free : pruneGapAll? drop dividedBlocks = none := rfl
  exact ⟨free, (run_visitAll_outline free).1⟩

end Prune

end RawLift
