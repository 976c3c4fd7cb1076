import Mathlib.Data.List.TakeWhile
import RawLift.Proofs.Unwrap.Walk

/-!
How far a walk comes and what it counts, block by block: for blocks one behind the other, for
containers and for leaves.
-/

namespace RawLift

/-! ### Leaves -/

namespace Node

theorem leavesAll_cons (n : Node) (ns : List Node) :
    leavesAll (n :: ns) = leaves n ++ leavesAll ns :=
  rfl

theorem leavesAll_singleton (n : Node) : leavesAll [n] = leaves n := by
  rw [leavesAll_cons, leavesAll, List.append_nil]

theorem isContainer_of_mem_leaves {n m : Node} (mem : m ∈ leaves n) : m.isContainer = false := by
  induction n using block_induction with
  | blockQuote children order ih | div attributes children order ih
  | figure attributes caption children order ih =>
    rw [leaves, leavesAll_eq_flatMap] at mem
    obtain ⟨child, inside, mem⟩ := List.mem_flatMap.mp mem
    exact ih child inside mem
  | leaf n leaf =>
    rw [leaves_of_leaf leaf, List.mem_singleton] at mem
    rwa [mem]

theorem isContainer_of_mem_leavesAll {m : Node} {ns : List Node} (mem : m ∈ leavesAll ns) :
    m.isContainer = false := by
  rw [leavesAll_eq_flatMap] at mem
  obtain ⟨n, -, mem⟩ := List.mem_flatMap.mp mem
  exact isContainer_of_mem_leaves mem

theorem leavesAll_of_leaves {ns : List Node} (each : ∀ n ∈ ns, n.isContainer = false) :
    leavesAll ns = ns := by
  rw [leavesAll_eq_flatMap, List.flatMap_congr fun n mem => leaves_of_leaf (each n mem)]
  simp

end Node

namespace Unwrap

open Node

/-! ### Counts -/

namespace Tally

theorem add_eq (s t : Tally) : s + t = ⟨s.angle + t.angle, s.image + t.image⟩ := rfl

@[simp] theorem zero_add (t : Tally) : {} + t = t := by
  simp [add_eq]

@[simp] theorem add_zero (t : Tally) : t + {} = t := by
  simp [add_eq]

theorem add_assoc (s t u : Tally) : s + t + u = s + (t + u) := by
  simp [add_eq, Nat.add_assoc]

end Tally

namespace Session

@[simp] theorem counting_zero (s : Session) : s.counting {} = s := by
  simp [counting]

theorem counting_counting (s : Session) (t u : Tally) :
    (s.counting t).counting u = s.counting (t + u) := by
  simp [counting, Tally.add_assoc]

@[simp] theorem options_counting (s : Session) (t : Tally) : (s.counting t).options = s.options :=
  rfl

@[simp] theorem angle_counting (s : Session) (t : Tally) :
    (s.counting t).tally.angle = s.tally.angle + t.angle := rfl

@[simp] theorem image_counting (s : Session) (t : Tally) :
    (s.counting t).tally.image = s.tally.image + t.image := rfl

end Session

section
variable (o : Options)

theorem tally_eq_of_leavesAll_eq {ns ms : List Node} (same : leavesAll ns = leavesAll ms) :
    tally o ns = tally o ms := by
  simp only [tally, replacements, same]

theorem tally_append (ns ms : List Node) : tally o (ns ++ ms) = tally o ns + tally o ms := by
  simp [tally, replacements, leavesAll_eq_flatMap, Tally.add_eq]

theorem tally_cons (n : Node) (ns : List Node) : tally o (n :: ns) = tally o [n] + tally o ns :=
  tally_append o [n] ns

theorem tally_leaf {n : Node} (leaf : n.isContainer = false) :
    tally o [n] = ((o.replacementOf? n).map fun r => Tally.ofRule r.rule).getD {} := by
  rw [tally, replacements, leavesAll_singleton, leaves_of_leaf leaf]
  cases replaced : o.replacementOf? n with
  | none => simp [replaced]
  | some r => cases rule : r.rule <;> simp [replaced, rule, Tally.ofRule]

/-! ### Gaps -/

theorem gap?_cons (n : Node) (ns : List Node) : gap? o (n :: ns) = (gap? o [n]).or (gap? o ns) := by
  rw [gap?, gap?, gap?, leavesAll_cons, leavesAll_singleton, List.findSome?_append]

theorem gap?_leaf {n : Node} (leaf : n.isContainer = false) : gap? o [n] = o.gap? n := by
  rw [gap?, leavesAll_singleton, leaves_of_leaf leaf]
  cases gap : o.gap? n <;> simp [gap]

theorem gap?_eq_none_iff {ns : List Node} :
    gap? o ns = none ↔ ∀ n ∈ leavesAll ns, (o.gap? n).isNone = true := by
  simp [gap?, List.findSome?_eq_none_iff]

theorem reached_cons_of_whole {n : Node} (ns : List Node) (whole : gap? o [n] = none) :
    reached o (n :: ns) = leaves n ++ reached o ns := by
  rw [gap?_eq_none_iff, leavesAll_singleton] at whole
  rw [reached, leavesAll_cons, List.takeWhile_append_of_pos whole, reached]

theorem reached_cons_of_gap {n : Node} (ns : List Node) (stops : gap? o [n] ≠ none) :
    reached o (n :: ns) = reached o [n] := by
  rw [reached, reached, leavesAll_cons, leavesAll_singleton, List.takeWhile_append, if_neg]
  intro all
  have self := (List.takeWhile_prefix _).eq_of_length all
  apply stops
  rw [gap?_eq_none_iff, leavesAll_singleton]
  exact List.takeWhile_eq_self_iff.mp self

theorem gap?_reached (ns : List Node) : gap? o (reached o ns) = none := by
  have leaf : ∀ n ∈ reached o ns, n.isContainer = false := by
    intro n mem
    exact isContainer_of_mem_leavesAll ((List.takeWhile_sublist _).subset mem)
  rw [gap?, leavesAll_of_leaves leaf, List.findSome?_eq_none_iff]
  intro n mem
  simpa using List.mem_takeWhile_imp mem

end

end Unwrap

end RawLift
