import Mathlib.Data.List.Forall2
import Mathlib.Data.List.Perm.Basic
import RawLift.Proofs.Node.Shape

/-!
JSON values that say the same. The members of an object may come in any order, and where a tag has
two names either may stand.
-/

namespace RawLift

namespace Value

/-- What holds of scalars, and of arrays and objects if it holds of what is in them, holds of every
value. -/
theorem tree_induction {motive : Value → Prop}
    (array : ∀ vs, (∀ v ∈ vs, motive v) → motive (.array vs))
    (object : ∀ ms : Members, (∀ m ∈ ms, motive m.2) → motive (.object ms))
    (scalar : ∀ v, (∀ vs, v ≠ .array vs) → (∀ ms, v ≠ .object ms) → motive v) (v : Value) :
    motive v := by
  induction size : sizeOf v using Nat.strongRecOn generalizing v with
  | _ _ ih =>
  subst size
  cases v with
  | array vs =>
    apply array
    intro v mem
    exact ih _ (sizeOf_lt_array mem) v rfl
  | object ms =>
    apply object
    rintro ⟨k, v⟩ mem
    refine ih _ ?_ v rfl
    have := List.sizeOf_lt_of_mem mem
    rw [Prod.mk.sizeOf_spec] at this
    rw [Value.object.sizeOf_spec]
    change sizeOf v < _
    omega
  | _ => exact scalar _ (by simp) (by simp)

mutual
/-- Equal up to the order of members, at any depth, and up to the two names of a tag. -/
inductive Alike : Value → Value → Prop
  | null : Alike .null .null
  | bool (b : Bool) : Alike (.bool b) (.bool b)
  | number (n : Number) : Alike (.number n) (.number n)
  | string (s : Text) : Alike (.string s) (.string s)
  | unwritable (u : Unwritable) : Alike (.unwritable u) (.unwritable u)
  | array {vs ws : List Value} (items : List.Forall₂ Alike vs ws) : Alike (.array vs) (.array ws)
  | object {ms ns ns' : Members} (members : List.Forall₂ MemberAlike ms ns)
      (order : ns.Perm ns') : Alike (.object ms) (.object ns')

inductive MemberAlike : Text × Value → Text × Value → Prop
  | value (key : Text) {v w : Value} (alike : Alike v w) : MemberAlike (key, v) (key, w)
  | paragraph {s t : Text} (first : Node.IsParagraphTag s) (second : Node.IsParagraphTag t) :
      MemberAlike (tagKey, .string s) (tagKey, .string t)
  | text {s t : Text} (first : Node.IsTextTag s) (second : Node.IsTextTag t) :
      MemberAlike (tagKey, .string s) (tagKey, .string t)
end

@[simp] theorem string_alike {s : Text} {w : Value} : Alike (.string s) w ↔ w = .string s := by
  constructor
  · rintro ⟨⟩
    rfl
  · rintro rfl
    exact .string s

@[simp] theorem array_alike {vs : List Value} {w : Value} :
    Alike (.array vs) w ↔ ∃ ws, w = .array ws ∧ List.Forall₂ Alike vs ws := by
  constructor
  · rintro ⟨⟩
    exact ⟨_, rfl, ‹_›⟩
  · rintro ⟨ws, rfl, items⟩
    exact .array items

theorem Alike.refl (v : Value) : v.Alike v := by
  induction v using tree_induction with
  | array vs ih => exact .array (List.forall₂_same.mpr ih)
  | object ms ih =>
    refine .object (List.forall₂_same.mpr ?_) (List.Perm.refl ms)
    rintro ⟨k, v⟩ mem
    exact .value k (ih _ mem)
  | scalar v notArray notObject =>
    cases v with
    | array vs => exact absurd rfl (notArray vs)
    | object ms => exact absurd rfl (notObject ms)
    | null => exact .null
    | bool b => exact .bool b
    | number n => exact .number n
    | string s => exact .string s
    | unwritable u => exact .unwritable u

/-- A relation along two lists turns around if it does for the items of the first. -/
theorem forall₂_flip_of_forall {α β : Type} {R : α → β → Prop} {S : β → α → Prop} {xs : List α}
    {ys : List β} (related : List.Forall₂ R xs ys) (turn : ∀ x ∈ xs, ∀ y, R x y → S y x) :
    List.Forall₂ S ys xs := by
  have each := (List.forall₂_and_left xs ys).mpr ⟨turn, related⟩
  have turned : List.Forall₂ (flip S) xs ys := each.imp fun x y ⟨turn, here⟩ => turn y here
  exact turned.flip

theorem Alike.symm {v w : Value} (alike : v.Alike w) : w.Alike v := by
  induction v using tree_induction generalizing w with
  | array vs ih =>
    cases alike with
    | array items =>
      refine .array (forall₂_flip_of_forall items ?_)
      intro v mem w alike
      exact ih v mem alike
  | object ms ih =>
    cases alike with
    | @object _ ns _ members order =>
      have back : List.Forall₂ MemberAlike ns ms := by
        refine forall₂_flip_of_forall members ?_
        intro m mem n alike
        cases alike with
        | value key alike => exact .value key (ih _ mem alike)
        | paragraph first second => exact .paragraph second first
        | text first second => exact .text second first
      obtain ⟨ns, members', order'⟩ := List.perm_comp_forall₂ order.symm back
      exact .object members' order'
  | scalar v notArray notObject =>
    cases alike with
    | array => exact absurd rfl (notArray _)
    | object => exact absurd rfl (notObject _)
    | _ => exact Alike.refl _

end Value

end RawLift
