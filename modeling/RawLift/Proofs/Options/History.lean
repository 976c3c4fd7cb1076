import Mathlib.Data.List.Forall2
import RawLift.Proofs.Blocks.Outline
import RawLift.Proofs.Options.Record
import RawLift.Proofs.Unwrap.Calls

/-!
Options through any number of updates. The first options are built from the defaults, later ones are
updated copies, and an update that is refused leaves those that there are. So options keep their
rule, and in the end they are what all the keywords of the updates that were made give at once. A
session makes its raw blocks under the format of its options, and that always is one.
-/

namespace RawLift

namespace OptionClass

variable {α κ ρ : Type} (C : OptionClass α κ ρ)

/-! ### Updates -/

/-- What an update starts from: the options that there are, or else the defaults. -/
def base (current : Option α) : α := current.getD C.defaults

/-- The record that an update is to give. -/
def asked (current : Option α) (k : κ) : ρ := C.override (C.record (C.base current)) k

def attempt (current : Option α) (k : κ) : Except OptionFault α := C.update (C.base current) k

/-- A refused update leaves the options as they were. -/
def step (current : Option α) (k : κ) : Option α :=
  match C.attempt current k with
  | .ok o => some o
  | .error _ => current

/-- The options after these updates; there are none before the first that is made. -/
def run (ks : List κ) : Option α := ks.foldl C.step none

/-- The keywords of the updates that are made. -/
def accepted (current : Option α) : List κ → List κ
  | [] => []
  | k :: ks =>
    match C.attempt current k with
    | .ok o => k :: accepted (some o) ks
    | .error _ => accepted current ks

/-- All keywords at once, the later ones in the place of the earlier. -/
def merged (ks : List κ) : κ := ks.foldl C.merge C.noKeywords

theorem valid_record (o : α) : C.Valid (C.record o) := by
  by_contra invalid
  obtain ⟨fault, refused, -⟩ := C.build_of_not_valid _ invalid
  rw [C.build_record o] at refused
  cases refused

section
variable {C} {current : Option α} {k : κ}

theorem attempt_of_valid (valid : C.Valid (C.asked current k)) :
    ∃ o, C.attempt current k = .ok o ∧ C.record o = C.asked current k := by
  rw [attempt, C.update_eq]
  exact C.build_of_valid _ valid

theorem attempt_of_not_valid (invalid : ¬ C.Valid (C.asked current k)) :
    ∃ fault, C.attempt current k = .error fault ∧ fault.report =
      .validation fault.message (some C.parameter) (C.given (C.asked current k)) := by
  rw [attempt, C.update_eq]
  exact C.build_of_not_valid _ invalid

theorem valid_of_attempt {o : α} (made : C.attempt current k = .ok o) :
    C.Valid (C.asked current k) := by
  by_contra invalid
  obtain ⟨fault, refused, -⟩ := attempt_of_not_valid invalid
  rw [made] at refused
  cases refused

theorem record_of_attempt {o : α} (made : C.attempt current k = .ok o) :
    C.record o = C.asked current k := by
  obtain ⟨o', made', record⟩ := attempt_of_valid (valid_of_attempt made)
  obtain rfl := Except.ok.inj (made.symm.trans made')
  exact record

end

/-! ### Runs -/

theorem run_concat (ks : List κ) (k : κ) : C.run (ks ++ [k]) = C.step (C.run ks) k := by
  rw [run, List.foldl_append]
  rfl

/-- Only the updates that are made show in the record. -/
theorem record_foldl_step (current : Option α) (ks : List κ) :
    C.record (C.base (ks.foldl C.step current)) =
      (C.accepted current ks).foldl C.override (C.record (C.base current)) := by
  induction ks generalizing current with
  | nil => rfl
  | cons k ks ih =>
    rw [List.foldl_cons, ih, step, accepted]
    cases made : C.attempt current k with
    | ok o =>
      have record : C.record (C.base (some o)) = C.asked current k := record_of_attempt made
      simp only [List.foldl_cons, record, asked]
    | error fault => rfl

theorem override_foldl_merge (r : ρ) (first : κ) (ks : List κ) :
    C.override r (ks.foldl C.merge first) = ks.foldl C.override (C.override r first) := by
  induction ks generalizing first with
  | nil => rfl
  | cons k ks ih => rw [List.foldl_cons, ih, C.override_merge, List.foldl_cons]

theorem override_merged (r : ρ) (ks : List κ) :
    C.override r (C.merged ks) = ks.foldl C.override r := by
  rw [merged, override_foldl_merge, C.override_noKeywords]

/-- The last word on each field counts, whatever was refused in between. -/
theorem update_merged (ks : List κ) :
    C.update C.defaults (C.merged (C.accepted none ks)) = .ok (C.base (C.run ks)) := by
  have record : C.override (C.record C.defaults) (C.merged (C.accepted none ks)) =
      C.record (C.base (C.run ks)) := by
    rw [override_merged]
    exact (C.record_foldl_step none ks).symm
  rw [C.update_eq, record, C.build_record]

/-- How options come through updates: whatever has been asked before, the next update is made just
if the overridden record keeps the rule, and leaves the options as they are if not. -/
structure Sound (ks : List κ) : Prop where
  made_iff : ∀ k, (∃ o, C.attempt (C.run ks) k = .ok o) ↔ C.Valid (C.asked (C.run ks) k)
  made : ∀ k o, C.attempt (C.run ks) k = .ok o →
    C.record o = C.asked (C.run ks) k ∧ C.run (ks ++ [k]) = some o
  refused : ∀ k, ¬ C.Valid (C.asked (C.run ks) k) →
    C.run (ks ++ [k]) = C.run ks ∧ ∃ fault, C.attempt (C.run ks) k = .error fault ∧
      fault.report =
        .validation fault.message (some C.parameter) (C.given (C.asked (C.run ks) k))
  valid : ∀ o ∈ C.run ks, C.Valid (C.record o)
  merged : ∀ o ∈ C.run ks, C.update C.defaults (C.merged (C.accepted none ks)) = .ok o

theorem sound (ks : List κ) : C.Sound ks where
  made_iff k := by
    refine ⟨fun ⟨o, made⟩ => valid_of_attempt made, fun valid => ?_⟩
    obtain ⟨o, made, -⟩ := attempt_of_valid valid
    exact ⟨o, made⟩
  made k o made := by
    rw [run_concat, step, made]
    exact ⟨record_of_attempt made, rfl⟩
  refused k invalid := by
    obtain ⟨fault, refused, report⟩ := attempt_of_not_valid invalid
    rw [run_concat, step, refused]
    exact ⟨rfl, fault, rfl, report⟩
  valid o _ := C.valid_record o
  merged o last := by
    rw [update_merged, Option.mem_def.mp last]
    rfl

end OptionClass

/-! ### Raw blocks -/

namespace Unwrap

open Node

/-- What unwrapping makes of a leaf: it stays, or a paragraph gives way to a raw block of the format
of the options. -/
def Options.Becomes (o : Options) (before after : Node) : Prop :=
  after = before ∨
    (before.kind = .paragraph ∧ ∃ markup, after = .rawBlock o.format.name markup)

theorem Options.becomes_leaf (o : Options) (n : Node) : o.Becomes n (o.leaf n) := by
  cases replaced : o.replacementOf? n with
  | none => exact .inl (leaf_of_kept replaced)
  | some r =>
    refine .inr ⟨?_, r.markup, leaf_of_replaced replaced⟩
    cases n with
    | paragraph => rfl
    | _ => cases replaced

section
variable (o : Options)

theorem becomes_map_leaf (ns : List Node) : List.Forall₂ o.Becomes ns (ns.map o.leaf) := by
  rw [List.forall₂_map_right_iff, List.forall₂_same]
  exact fun n _ => o.becomes_leaf n

theorem becomes_same (ns : List Node) : List.Forall₂ o.Becomes ns ns :=
  List.forall₂_same.mpr fun _ _ => .inl rfl

theorem becomes_blocks (ns : List Node) :
    List.Forall₂ o.Becomes (leavesAll ns) (leavesAll (blocks o ns)) := by
  rw [leavesAll_blocks]
  exact becomes_map_leaf o _

theorem becomes_changedInPlace (n : Node) :
    List.Forall₂ o.Becomes (leaves n) (leaves (changedInPlace o n)) := by
  rw [changedInPlace]
  split
  · rw [block, leaves_mapLeaves o.isContainer_leaf]
    exact becomes_map_leaf o _
  · exact becomes_same o _

theorem halted_eq_withChildren (stops : Node → Bool) (change : Node → Node) (n : Node) :
    Node.halted stops change n = n.withChildren (haltedAll stops change n.children) := by
  cases n <;> rfl

/-- A walk that is stopped has made no other raw blocks than one that is not. -/
theorem becomes_haltedAll (stops : Node → Bool) (ns : List Node) :
    List.Forall₂ o.Becomes (leavesAll ns)
      (leavesAll (haltedAll stops (changedInPlace o) ns)) := by
  induction ns using forest_induction with
  | nil => exact .nil
  | cons n ns below behind =>
    rw [haltedAll]
    split
    · refine List.rel_append ?_ (becomes_same o _)
      rw [halted_eq_withChildren]
      cases container : n.isContainer with
      | true =>
        rwa [leaves_of_container container, leaves_of_container (by simpa using container),
          children_withChildren container]
      | false =>
        rw [withChildren_of_leaf container]
        exact becomes_same o _
    · exact List.rel_append (becomes_changedInPlace o n) behind

end

namespace Session

variable (s : Session)

theorem becomes_call {p done : Piece} (answered : (s.call p).1 = .ok done) :
    List.Forall₂ s.options.Becomes (leavesAll p.trees) (leavesAll done.trees) := by
  rw [call_eq] at answered
  cases walk : gap? s.options p.trees with
  | some gap =>
    rw [walk] at answered
    cases answered
  | none =>
    rw [walk] at answered
    obtain rfl := Except.ok.inj answered
    rw [Piece.trees_unwrapped]
    exact becomes_blocks s.options p.trees

/-- A document holds no other raw blocks afterwards, even if the walk has been stopped. -/
theorem becomes_tryDocument (d : Document) :
    List.Forall₂ s.options.Becomes (leavesAll (d.blocks.getD []))
      (leavesAll ((s.tryDocument d).2.1.blocks.getD [])) := by
  obtain ⟨bs, metadata, extra, keyOrder⟩ := d
  rw [tryDocument]
  cases bs with
  | none => exact .nil
  | some ns =>
    split
    · exact becomes_blocks s.options ns
    · exact becomes_haltedAll s.options _ ns

end Session

end Unwrap

/-! ### Both classes -/

open Node Unwrap

/-- A format, one that is refused for its blank, and a flag. -/
def formatThenFlag : List Unwrap.Changes :=
  [{ format := some (.string "tex") }, { format := some (.string "a b") }, { angle := some false }]

/-- An indent below zero before there is a layout, and then one of two. -/
def negativeThenTwo : List Json.Layout.Keywords :=
  [{ indent := some (some (-1)) }, { indent := some (some 2) }]

end RawLift
