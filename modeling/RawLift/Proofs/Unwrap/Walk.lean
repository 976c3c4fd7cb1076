import Mathlib.Data.List.Basic
import RawLift.Proofs.Node.RoundTrip
import RawLift.Proofs.Unwrap.Paragraph

/-!
The walk over the block tree, on trees and on the JSON values that they are read from. It changes
leaves only, so what it does to a tree follows from what it does to one block.
-/

namespace RawLift

/-! ### Trees -/

namespace Node

theorem block_induction {motive : Node → Prop}
    (blockQuote : ∀ children order, (∀ n ∈ children, motive n) →
      motive (.blockQuote children order))
    (div : ∀ attributes children order, (∀ n ∈ children, motive n) →
      motive (.div attributes children order))
    (figure : ∀ attributes caption children order, (∀ n ∈ children, motive n) →
      motive (.figure attributes caption children order))
    (leaf : ∀ n, n.isContainer = false → motive n) (n : Node) : motive n := by
  induction size : sizeOf n using Nat.strongRecOn generalizing n with
  | _ _ ih =>
  subst size
  have inside {children : List Node} (smaller : sizeOf children ≤ sizeOf n) :
      ∀ m ∈ children, motive m := by
    intro m mem
    have below := List.sizeOf_lt_of_mem mem
    exact ih _ (by omega) m rfl
  cases n with
  | blockQuote children order =>
    apply blockQuote
    apply inside
    simp only [Node.blockQuote.sizeOf_spec]
    omega
  | div attributes children order =>
    apply div
    apply inside
    simp only [Node.div.sizeOf_spec]
    omega
  | figure attributes caption children order =>
    apply figure
    apply inside
    simp only [Node.figure.sizeOf_spec]
    omega
  | _ => exact leaf _ rfl

theorem mapLeaves_of_leaf {n : Node} (leaf : n.isContainer = false) (f : Node → Node) :
    mapLeaves f n = f n := by
  cases n with
  | blockQuote | div | figure => simp [isContainer] at leaf
  | _ => rfl

theorem leaves_of_leaf {n : Node} (leaf : n.isContainer = false) : leaves n = [n] := by
  cases n with
  | blockQuote | div | figure => simp [isContainer] at leaf
  | _ => rfl

section
variable {f g : Node → Node} (keeps : ∀ n, n.isContainer = false → (g n).isContainer = false)
include keeps

theorem leaves_mapLeaves (n : Node) : leaves (mapLeaves g n) = (leaves n).map g := by
  induction n using block_induction with
  | blockQuote children order ih | div attributes children order ih
  | figure attributes caption children order ih =>
    simp only [mapLeaves, leaves, mapLeavesAll_eq_map, leavesAll_eq_flatMap, List.flatMap_map,
      List.map_flatMap]
    exact List.flatMap_congr ih
  | leaf n leaf =>
    rw [mapLeaves_of_leaf leaf, leaves_of_leaf (keeps n leaf), leaves_of_leaf leaf,
      List.map_singleton]

theorem mapLeaves_mapLeaves (n : Node) : mapLeaves f (mapLeaves g n) = mapLeaves (f ∘ g) n := by
  induction n using block_induction with
  | blockQuote children order ih | div attributes children order ih
  | figure attributes caption children order ih =>
    simpa [mapLeaves, mapLeavesAll_eq_map] using ih
  | leaf n leaf =>
    rw [mapLeaves_of_leaf leaf, mapLeaves_of_leaf (keeps n leaf), mapLeaves_of_leaf leaf,
      Function.comp_apply]

theorem leavesAll_mapLeavesAll (ns : List Node) :
    leavesAll (mapLeavesAll g ns) = (leavesAll ns).map g := by
  simp only [mapLeavesAll_eq_map, leavesAll_eq_flatMap, List.flatMap_map, List.map_flatMap]
  exact List.flatMap_congr fun n _ => leaves_mapLeaves keeps n

theorem mapLeavesAll_mapLeavesAll (ns : List Node) :
    mapLeavesAll f (mapLeavesAll g ns) = mapLeavesAll (f ∘ g) ns := by
  simp only [mapLeavesAll_eq_map, List.map_map]
  exact List.map_congr_left fun n _ => mapLeaves_mapLeaves keeps n

end

end Node

namespace Unwrap

open Node

namespace Options

theorem replacementOf?_rawBlock (o : Options) (format content : Text) (order : MemberOrder) :
    o.replacementOf? (.rawBlock format content order) = none := rfl

theorem leaf_of_kept {o : Options} {n : Node} (kept : o.replacementOf? n = none) :
    o.leaf n = n := by
  rw [leaf, kept]

theorem leaf_of_replaced {o : Options} {n : Node} {r : Replacement}
    (replaced : o.replacementOf? n = some r) : o.leaf n = .rawBlock o.format.name r.markup := by
  rw [leaf, replaced]

theorem isContainer_leaf (o : Options) (n : Node) (leaf : n.isContainer = false) :
    (o.leaf n).isContainer = false := by
  cases replaced : o.replacementOf? n with
  | none => rwa [leaf_of_kept replaced]
  | some r =>
    rw [leaf_of_replaced replaced]
    rfl

theorem Narrower.replacementOf?_leaf {o' o : Options} (narrower : o'.Narrower o) (n : Node) :
    o'.replacementOf? (o.leaf n) = none := by
  cases replaced : o.replacementOf? n with
  | some r => rw [leaf_of_replaced replaced, replacementOf?_rawBlock]
  | none =>
    rw [leaf_of_kept replaced]
    cases n with
    | paragraph tag content order => exact narrower.replacement?_eq_none replaced
    | _ => rfl

end Options

theorem leavesAll_blocks (o : Options) (ns : List Node) :
    leavesAll (blocks o ns) = (leavesAll ns).map o.leaf :=
  leavesAll_mapLeavesAll o.isContainer_leaf ns

/-! ### A second walk -/

section
variable {o' o : Options} (narrower : o'.Narrower o)
include narrower

theorem leaf_comp_leaf : o'.leaf ∘ o.leaf = o.leaf := by
  funext n
  exact Options.leaf_of_kept (narrower.replacementOf?_leaf n)

theorem blocks_blocks (ns : List Node) : blocks o' (blocks o ns) = blocks o ns := by
  rw [blocks, blocks, mapLeavesAll_mapLeavesAll o.isContainer_leaf, leaf_comp_leaf narrower]

theorem replacements_blocks (ns : List Node) : replacements o' (blocks o ns) = [] := by
  rw [replacements, leavesAll_blocks, List.filterMap_map, List.filterMap_eq_nil_iff]
  intro n _
  exact narrower.replacementOf?_leaf n

theorem tally_blocks (ns : List Node) : tally o' (blocks o ns) = {} := by
  simp [tally, replacements_blocks narrower]

end

end Unwrap

end RawLift
