import RawLift.Double

/-!
The JSON data model. Objects keep their members in order, integers are unbounded and kept apart
from doubles, and strings are texts. A tree built in memory may also hold a leaf that JSON has no
form for; no text ever reads as one.
-/

namespace RawLift

inductive Number where
  | int (n : Int)
  | real (x : Double)
  deriving DecidableEq

/-- Why a leaf has no JSON form: it stands where a node, its list or its attributes belong and is
none of them, its type is not one of JSON's, or it contains itself. A `unique` leaf is like no other
of its type. -/
inductive Unwritable where
  | notANode (typeName : Text)
  | noList
  | noAttributes
  | unsupported (typeName : Text) (unique : Bool := false)
  | circular
  deriving DecidableEq

namespace Unwritable

/-- Leaves that are met while a tree is turned into a value, and so before any other. -/
def isInTree : Unwritable → Bool
  | notANode _ | noList | noAttributes => true
  | _ => false

def agrees : Unwritable → Unwritable → Bool
  | unsupported _ true, _ => false
  | u, u' => u == u'

end Unwritable

inductive Value where
  | null
  | bool (b : Bool)
  | number (n : Number)
  | string (s : Text)
  | array (items : List Value)
  | object (members : List (Text × Value))
  | unwritable (cause : Unwritable)

abbrev Members := List (Text × Value)

namespace Members

def keys (ms : Members) : List Text := ms.map Prod.fst

def get? (ms : Members) (key : Text) : Option Value := ms.lookup key

/-- A known key keeps its place and takes the new value; a new key goes to the end. -/
def insert (key : Text) (value : Value) : Members → Members
  | [] => [(key, value)]
  | (k, v) :: ms => if k = key then (k, value) :: ms else (k, v) :: insert key value ms

theorem keys_insert (key : Text) (value : Value) (ms : Members) :
    (insert key value ms).keys = if key ∈ ms.keys then ms.keys else ms.keys ++ [key] := by
  induction ms with
  | nil => simp [insert, keys]
  | cons m ms ih =>
    obtain ⟨k, v⟩ := m
    unfold insert
    by_cases h : k = key
    · simp [keys, h]
    · have h' : ¬ key = k := fun e => h e.symm
      simp only [h, if_false, keys, List.map_cons, List.mem_cons, h', false_or] at ih ⊢
      rw [ih]
      split <;> simp_all

/-- Members as written, a repeated key counting at its first place with its last value. -/
def ofPairs (pairs : List (Text × Value)) : Members :=
  pairs.foldl (fun ms (k, v) => insert k v ms) []

end Members

namespace Number

/-- The value of a finite number as a quotient of an integer and a positive natural number. -/
def ratio? : Number → Option (Int × Nat)
  | int n => some (n, 1)
  | real (.finite negative m) =>
    some (if negative then -(m.numerator : Int) else m.numerator, m.denominator)
  | real _ => none

/-- Equality of numbers by value, whatever their kind. -/
def agrees (a b : Number) : Bool :=
  match a.ratio?, b.ratio? with
  | some (n, d), some (n', d') => n * d' == n' * d
  | none, none => a == b
  | _, _ => false

end Number

namespace Value

/-- Truth values count as the numbers one and zero. -/
def number? : Value → Option Number
  | bool b => some (.int (if b then 1 else 0))
  | number n => some n
  | _ => none

mutual
/-- Equality as data: the order of an object's members does not matter, and numbers are compared by
value. -/
def agrees : Value → Value → Bool
  | null, null => true
  | string s, string s' => s == s'
  | array xs, array ys => agreesAll xs ys
  | object ms, object ns => ms.length == ns.length && agreesMembers ms ns
  | unwritable u, unwritable u' => u.agrees u'
  | v, w =>
    match v.number?, w.number? with
    | some n, some n' => n.agrees n'
    | _, _ => false

def agreesAll : List Value → List Value → Bool
  | [], [] => true
  | x :: xs, y :: ys => x.agrees y && agreesAll xs ys
  | _, _ => false

/-- Every member of the first list has a counterpart in the second. -/
def agreesMembers : Members → Members → Bool
  | [], _ => true
  | (k, v) :: ms, ns =>
    (match ns.lookup k with
      | some w => v.agrees w
      | none => false) && agreesMembers ms ns
end

/-- The name of a value's type as messages give it. -/
def typeName : Value → Text
  | null => "NoneType"
  | bool _ => "bool"
  | number (.int _) => "int"
  | number (.real _) => "float"
  | string _ => "str"
  | array _ => "list"
  | object _ => "dict"
  | unwritable (.notANode name) => name
  | unwritable .noList | unwritable .noAttributes => "NoneType"
  | unwritable (.unsupported name _) => name
  | unwritable .circular => "list"

end Value

end RawLift
