import RawLift.Proofs.Step
import RawLift.Proofs.Unwrap.Tally

/-!
A session at work, block by block. It visits the blocks in order, replaces a paragraph as soon as
one of its rules claims it, and counts it there and then; a gap stops it where it is. What comes of
all the steps is what the session answers for the blocks as a whole.
-/

namespace RawLift.Unwrap

open Node

namespace Session

/-! ### Steps -/

/-- Replaces a paragraph that a rule claims and counts it; one without markup stays uncounted. -/
def replace (rule : Rule) (gap? : Option Gap) (markup? : Option Text) (p : Node) :
    Step Session Node :=
  match gap?, markup? with
  | some gap, _ => throw gap
  | none, none => return p
  | none, some markup => do
    modify fun s => s.counting (.ofRule rule)
    return .rawBlock (← get).options.format.name markup

def visitParagraph (p : Node) (content : List Node) : Step Session Node := do
  let o := (← get).options
  if o.angle && Inlines.hasAngleLead o.requireSpace content then
    replace .angle (Inlines.angleGap? o.requireSpace content)
      (Inlines.angleMarkup? o.requireSpace content) p
  else if o.images && Inlines.isSingleImage content then
    replace .image (Inlines.imageGap? content) (Inlines.firstImage? content) p
  else return p

mutual
def visit : Node → Step Session Node
  | .paragraph tag content order => visitParagraph (.paragraph tag content order) content
  | .blockQuote children order => return .blockQuote (← visitAll children) order
  | .div attributes children order => return .div attributes (← visitAll children) order
  | .figure attributes caption children order =>
    return .figure attributes caption (← visitAll children) order
  | n =>
    match n.gap? with
    | some gap => throw gap
    | none => return n

def visitAll : List Node → Step Session (List Node)
  | [] => return []
  | n :: ns => return (← visit n) :: (← visitAll ns)
end

/-- Visits the blocks of a document, if it has any. -/
def visitDocument (d : Document) : Step Session Document :=
  match d.blocks with
  | none => return d
  | some ns => return { d with blocks := some (← visitAll ns) }

/-! ### Runs -/

theorem run_replace (s : Session) (rule : Rule) (gap? : Option Gap) (markup? : Option Text)
    (p : Node) : Step.run s (replace rule gap? markup? p) =
      match gap?, markup? with
      | some gap, _ => (.error gap, s)
      | none, none => (.ok p, s)
      | none, some markup =>
        (.ok (.rawBlock s.options.format.name markup), s.counting (.ofRule rule)) := by
  cases gap? <;> cases markup? <;> rfl

theorem run_visitAll_cons (s : Session) (n : Node) (ns : List Node) :
    Step.run s (visitAll (n :: ns)) = match Step.run s (visit n) with
      | (.ok m, s') => ((Step.run s' (visitAll ns)).1.map (m :: ·), (Step.run s' (visitAll ns)).2)
      | (.error gap, s') => (.error gap, s') := by
  rw [visitAll, Step.run_bind]
  rcases Step.run s (visit n) with ⟨_ | m, s'⟩
  · rfl
  · exact Step.run_map s' (visitAll ns) (m :: ·)

/-! ### One block -/

/-- A leaf is counted if it is replaced, and not if it stops the session. -/
theorem tryBlock_leaf (s : Session) {n : Node} (leaf : n.isContainer = false) :
    s.tryBlock n = match s.options.gap? n with
      | some gap => (.error gap, s)
      | none => (.ok (s.options.leaf n),
        s.counting (((s.options.replacementOf? n).map fun r => .ofRule r.rule).getD {})) := by
  rw [tryBlock, gap?_leaf s.options leaf]
  cases gap : s.options.gap? n with
  | none => simp only [block, Unwrap.block, mapLeaves_of_leaf leaf, tally_leaf s.options leaf]
  | some g =>
    have nothing : reached s.options [n] = [] := by
      simp [reached, leavesAll_singleton, leaves_of_leaf leaf, gap]
    simp only [through, nothing]
    exact congrArg _ s.counting_zero

theorem run_visitParagraph (s : Session) (p : Node) (content : List Node) :
    Step.run s (visitParagraph p content) =
      match s.options.rule? content with
      | some .angle =>
        Step.run s (replace .angle (Inlines.angleGap? s.options.requireSpace content)
          (Inlines.angleMarkup? s.options.requireSpace content) p)
      | some .image =>
        Step.run s (replace .image (Inlines.imageGap? content) (Inlines.firstImage? content) p)
      | none => (.ok p, s) := by
  rw [visitParagraph, Step.run_bind, Step.run_get, Options.rule?]
  dsimp only
  by_cases angle : (s.options.angle && Inlines.hasAngleLead s.options.requireSpace content) = true
  · rw [if_pos angle, if_pos angle]
  · rw [if_neg angle, if_neg angle]
    split <;> rfl

theorem run_visit_paragraph (s : Session) (tag : Text) (content : List Node)
    (order : MemberOrder) : Step.run s (visit (.paragraph tag content order)) =
      s.tryBlock (.paragraph tag content order) := by
  rw [visit, run_visitParagraph, tryBlock_leaf s rfl, Options.gap?, Options.leaf,
    Options.replacementOf?, Options.replacement?]
  cases s.options.rule? content with
  | none => rfl
  | some r =>
    cases r with
    | angle =>
      rw [run_replace]
      cases Inlines.angleGap? s.options.requireSpace content <;>
        cases Inlines.angleMarkup? s.options.requireSpace content <;> rfl
    | image =>
      rw [run_replace]
      cases Inlines.imageGap? content <;> cases Inlines.firstImage? content <;> rfl

theorem run_visit_leaf (s : Session) {n : Node} (leaf : n.isContainer = false) :
    Step.run s (visit n) = s.tryBlock n := by
  cases n with
  | blockQuote | div | figure => cases leaf
  | paragraph tag content order => exact s.run_visit_paragraph tag content order
  | hollow shell => cases shell <;> rfl
  | _ => rfl

/-- A container is as its children are. -/
theorem tryBlock_container (s : Session) {n : Node} {children : List Node}
    {rebuilt : List Node → Node} (below : leaves n = leavesAll children)
    (changed : Unwrap.block s.options n = rebuilt (Unwrap.blocks s.options children)) :
    s.tryBlock n = ((s.tryBlocks children).1.map rebuilt, (s.tryBlocks children).2) := by
  have same : leavesAll [n] = leavesAll children := by rw [leavesAll_singleton, below]
  rw [tryBlock, tryBlocks]
  simp only [gap?, reached, through, block, blocks, changed, same,
    tally_eq_of_leavesAll_eq s.options same]
  split <;> rfl

/-! ### Blocks one behind the other -/

theorem tryBlocks_cons (s : Session) (n : Node) (ns : List Node) :
    s.tryBlocks (n :: ns) = match s.tryBlock n with
      | (.ok m, s') => ((s'.tryBlocks ns).1.map (m :: ·), (s'.tryBlocks ns).2)
      | (.error gap, s') => (.error gap, s') := by
  rw [tryBlocks, tryBlock, gap?_cons]
  -- A gap in the first block hides the others; without one, all its leaves are reached and counted
  -- before theirs.
  cases first : gap? s.options [n] with
  | some gap =>
    have stops : gap? s.options [n] ≠ none := by simp [first]
    simp only [Option.some_or, through, reached_cons_of_gap s.options ns stops]
  | none =>
    simp only [Option.none_or, tryBlocks, block, options_counting]
    cases rest : gap? s.options ns with
    | none =>
      simp only [blocks, counting_counting, tally_cons s.options n ns]
      rfl
    | some gap =>
      have same : leavesAll (leaves n) = leavesAll [n] := by
        rw [leavesAll_singleton, leavesAll_of_leaves fun m => isContainer_of_mem_leaves]
      simp only [through, options_counting, counting_counting,
        reached_cons_of_whole s.options ns first, tally_append,
        tally_eq_of_leavesAll_eq s.options same]
      rfl

theorem run_visitAll_of_forall {ns : List Node}
    (each : ∀ n ∈ ns, ∀ s : Session, Step.run s (visit n) = s.tryBlock n) (s : Session) :
    Step.run s (visitAll ns) = s.tryBlocks ns := by
  induction ns generalizing s with
  | nil => exact (congrArg _ s.counting_zero).symm
  | cons n ns ih =>
    have later := ih fun m mem => each m (List.mem_cons_of_mem n mem)
    rw [run_visitAll_cons, each n List.mem_cons_self, tryBlocks_cons]
    simp only [later]

theorem run_rebuilt (s : Session) {n : Node} {children : List Node} (rebuilt : List Node → Node)
    (each : ∀ n ∈ children, ∀ s : Session, Step.run s (visit n) = s.tryBlock n)
    (below : leaves n = leavesAll children)
    (changed : Unwrap.block s.options n = rebuilt (Unwrap.blocks s.options children)) :
    Step.run s (visitAll children >>= fun ns => pure (rebuilt ns)) = s.tryBlock n := by
  rw [Step.run_map, run_visitAll_of_forall each, tryBlock_container s below changed]

theorem run_visit (s : Session) (n : Node) : Step.run s (visit n) = s.tryBlock n := by
  -- For all sessions at once: each child meets the session that those before it have left.
  induction n using block_induction generalizing s with
  | blockQuote children order ih => exact s.run_rebuilt (Node.blockQuote · order) ih rfl rfl
  | div attributes children order ih => exact s.run_rebuilt (Node.div attributes · order) ih rfl rfl
  | figure attributes caption children order ih =>
    exact s.run_rebuilt (Node.figure attributes caption · order) ih rfl rfl
  | leaf n leaf => exact s.run_visit_leaf leaf

theorem run_visitAll (s : Session) (ns : List Node) : Step.run s (visitAll ns) = s.tryBlocks ns :=
  run_visitAll_of_forall (fun n _ s => s.run_visit n) s

theorem run_visitDocument (s : Session) (d : Document) :
    Step.run s (visitDocument d) = match s.tryDocument d with
      | (none, d', s') => (.ok d', s')
      | (some gap, _, s') => (.error gap, s') := by
  obtain ⟨blocks, metadata, extra, keyOrder⟩ := d
  cases blocks with
  | none => exact (congrArg _ s.counting_zero).symm
  | some ns =>
    rw [visitDocument, Step.run_map, run_visitAll, tryBlocks, tryDocument, Option.getD_some]
    cases gap? s.options ns <;> rfl

end Session

end RawLift.Unwrap
