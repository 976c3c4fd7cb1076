import Mathlib.Data.List.TakeWhile
import RawLift.Proofs.Unwrap.Walk

/-!
Forests of blocks, read in preorder. The outline of a forest has a line for each block, before the
lines of the blocks in it; a line says which containers stand around the block, and what the block
is apart from its children. Two forests with one outline are the same.
-/

namespace RawLift.Node

/-! ### Children -/

/-- The blocks in a container; all other blocks are without. -/
def children : Node → List Node
  | blockQuote children _ => children
  | div _ children _ => children
  | figure _ _ children _ => children
  | _ => []

/-- A container with other blocks in it. -/
def withChildren (ns : List Node) : Node → Node
  | blockQuote _ order => blockQuote ns order
  | div attributes _ order => div attributes ns order
  | figure attributes caption _ order => figure attributes caption ns order
  | n => n

theorem children_of_leaf {n : Node} (leaf : n.isContainer = false) : n.children = [] := by
  cases n with
  | blockQuote | div | figure => cases leaf
  | _ => rfl

theorem withChildren_of_leaf {n : Node} (leaf : n.isContainer = false) (ns : List Node) :
    n.withChildren ns = n := by
  cases n with
  | blockQuote | div | figure => cases leaf
  | _ => rfl

theorem children_withChildren {n : Node} (container : n.isContainer = true) (ns : List Node) :
    (n.withChildren ns).children = ns := by
  cases n with
  | blockQuote | div | figure => rfl
  | _ => cases container

theorem leaves_of_container {n : Node} (container : n.isContainer = true) :
    leaves n = leavesAll n.children := by
  cases n with
  | blockQuote | div | figure => rfl
  | _ => cases container

@[simp] theorem withChildren_children (n : Node) : n.withChildren n.children = n := by
  cases n <;> rfl

@[simp] theorem withChildren_withChildren (n : Node) (ns ms : List Node) :
    (n.withChildren ns).withChildren ms = n.withChildren ms := by
  cases n <;> rfl

@[simp] theorem isContainer_withChildren (n : Node) (ns : List Node) :
    (n.withChildren ns).isContainer = n.isContainer := by
  cases n <;> rfl

@[simp] theorem kind_withChildren (n : Node) (ns : List Node) :
    (n.withChildren ns).kind = n.kind := by
  cases n <;> rfl

/-- A block is what it is apart from its children, and these. -/
theorem ext_children {n m : Node} (shell : n.withChildren [] = m.withChildren [])
    (children : n.children = m.children) : n = m := by
  rw [← withChildren_children n, ← withChildren_children m, children,
    ← withChildren_withChildren n [], shell, withChildren_withChildren]

/-- A forest is empty, or it has a first tree, the forest below that, in whatever sense makes it
smaller, and the forest behind it. -/
theorem forest_induction_of {below : Node → List Node}
    (smaller : ∀ n, sizeOf (below n) ≤ sizeOf n) {motive : List Node → Prop} (nil : motive [])
    (cons : ∀ n ns, motive (below n) → motive ns → motive (n :: ns)) (ns : List Node) :
    motive ns := by
  induction size : sizeOf ns using Nat.strongRecOn generalizing ns with
  | _ _ ih =>
  subst size
  cases ns with
  | nil => exact nil
  | cons n ns =>
    have spec := List.cons.sizeOf_spec n ns
    have first := smaller n
    exact cons n ns (ih _ (by omega) _ rfl) (ih _ (by omega) _ rfl)

theorem sizeOf_children (n : Node) : sizeOf n.children ≤ sizeOf n := by
  cases n <;> simp [children] <;> omega

theorem forest_induction {motive : List Node → Prop} (nil : motive [])
    (cons : ∀ n ns, motive n.children → motive ns → motive (n :: ns)) (ns : List Node) :
    motive ns :=
  forest_induction_of sizeOf_children nil cons ns

/-! ### Outlines -/

/-- A block in a forest: the kinds of the containers around it, the outermost first, and the block
without its children. -/
structure Line where
  around : List Kind
  block : Node

mutual
def outlineOf (around : List Kind) : Node → List Line
  | .blockQuote children order =>
    ⟨around, .blockQuote [] order⟩ :: outline (around ++ [.blockQuote]) children
  | .div attributes children order =>
    ⟨around, .div attributes [] order⟩ :: outline (around ++ [.div]) children
  | .figure attributes caption children order =>
    ⟨around, .figure attributes caption [] order⟩ :: outline (around ++ [.figure]) children
  | n => [⟨around, n⟩]

/-- The lines of a forest that stands in the given containers. -/
def outline (around : List Kind) : List Node → List Line
  | [] => []
  | n :: ns => outlineOf around n ++ outline around ns
end

@[simp] theorem outline_nil (around : List Kind) : outline around [] = [] := rfl

theorem outline_cons (around : List Kind) (n : Node) (ns : List Node) :
    outline around (n :: ns) = ⟨around, n.withChildren []⟩ ::
      (outline (around ++ [n.kind]) n.children ++ outline around ns) := by
  cases n <;> rfl

theorem prefix_of_mem_outline {around : List Kind} {ns : List Node} {line : Line}
    (mem : line ∈ outline around ns) : around <+: line.around := by
  induction ns using forest_induction generalizing around with
  | nil => simp at mem
  | cons n ns below behind =>
    rw [outline_cons, List.mem_cons, List.mem_append] at mem
    rcases mem with rfl | mem | mem
    · exact List.prefix_rfl
    · exact (List.prefix_append around [n.kind]).trans (below mem)
    · exact behind mem

/-! ### An outline says it all -/

/-- The line is of a block in some further container. -/
def Line.isDeeper (around : List Kind) (line : Line) : Bool := around.length < line.around.length

theorem isDeeper_of_mem_outline {around : List Kind} {kind : Kind} {ns : List Node} {line : Line}
    (mem : line ∈ outline (around ++ [kind]) ns) : line.isDeeper around = true := by
  have length := (prefix_of_mem_outline mem).length_le
  rw [List.length_append, List.length_singleton] at length
  exact decide_eq_true length

section
variable (around : List Kind) (kind : Kind) (ns ms : List Node)

theorem takeWhile_isDeeper_outline : (outline around ns).takeWhile (Line.isDeeper around) = [] := by
  cases ns with
  | nil => rfl
  | cons n ns =>
    rw [outline_cons, List.takeWhile_cons_of_neg]
    simp [Line.isDeeper]

/-- Where the blocks in a container end and those behind it begin can be seen from the lines. -/
theorem takeWhile_isDeeper_append :
    (outline (around ++ [kind]) ns ++ outline around ms).takeWhile (Line.isDeeper around) =
      outline (around ++ [kind]) ns := by
  rw [List.takeWhile_append_of_pos fun _ mem => isDeeper_of_mem_outline mem,
    takeWhile_isDeeper_outline, List.append_nil]

end

theorem outline_injective {around : List Kind} {ns ms : List Node}
    (same : outline around ns = outline around ms) : ns = ms := by
  induction ns using forest_induction generalizing around ms with
  | nil =>
    cases ms with
    | nil => rfl
    | cons m ms => simp [outline_cons] at same
  | cons n ns below behind =>
    cases ms with
    | nil => simp [outline_cons] at same
    | cons m ms =>
      rw [outline_cons, outline_cons] at same
      obtain ⟨first, rest⟩ := List.cons.inj same
      have shell : n.withChildren [] = m.withChildren [] := (Line.mk.inj first).2
      have kinds : n.kind = m.kind := by simpa using congrArg kind shell
      have inside := congrArg (List.takeWhile (Line.isDeeper around)) rest
      rw [takeWhile_isDeeper_append, takeWhile_isDeeper_append, ← kinds] at inside
      rw [← kinds, inside] at rest
      have children : n.children = m.children := below inside
      have others : ns = ms := behind (List.append_cancel_left rest)
      rw [ext_children shell children, others]

end RawLift.Node
