import RawLift.Text

/-!
Natural numbers as decimal digits, most significant first. `ofDigits_digits` says that writing a
number and reading it back loses nothing.
-/

namespace RawLift.Decimal

def digits (n : Nat) : List Nat :=
  if n < 10 then [n] else digits (n / 10) ++ [n % 10]
termination_by n

def ofDigits (ds : List Nat) : Nat := ds.foldl (fun n d => 10 * n + d) 0

theorem ofDigits_append_one (ds : List Nat) (d : Nat) :
    ofDigits (ds ++ [d]) = 10 * ofDigits ds + d := by
  simp [ofDigits]

theorem ofDigits_digits (n : Nat) : ofDigits (digits n) = n := by
  fun_induction digits n with
  | case1 n h => simp [ofDigits]
  | case2 n h ih => rw [ofDigits_append_one, ih]; omega

theorem digits_lt_ten (n : Nat) : ∀ d ∈ digits n, d < 10 := by
  fun_induction digits n with
  | case1 n h => simpa using h
  | case2 n h ih =>
    intro d hd
    rcases List.mem_append.1 hd with hd | hd
    · exact ih d hd
    · simp only [List.mem_singleton] at hd; omega

def digitChar (d : Nat) : Char := Char.ofNat ('0'.toNat + d)

/-- The digit that an ASCII digit character stands for. -/
def digit? : CodePoint → Option Nat
  | .char c => if '0' ≤ c ∧ c ≤ '9' then some (c.toNat - '0'.toNat) else none
  | .surrogate _ => none

def writtenDigits (ds : List Nat) : Text := ds.map fun d => .char (digitChar d)

def written (n : Nat) : Text := writtenDigits (digits n)

def writtenInt : Int → Text
  | .ofNat n => written n
  | .negSucc n => .char '-' :: written (n + 1)

/-- The longest run of ASCII digits that a text starts with, as digits, and what follows. -/
def takeDigits : Text → List Nat × Text
  | [] => ([], [])
  | p :: rest =>
    match digit? p with
    | some d => let (ds, after) := takeDigits rest; (d :: ds, after)
    | none => ([], p :: rest)

theorem takeDigits_length (t : Text) :
    (takeDigits t).1.length + (takeDigits t).2.length = t.length := by
  induction t with
  | nil => rfl
  | cons p rest ih =>
    unfold takeDigits
    split
    · simp only [List.length_cons]; omega
    · simp

end RawLift.Decimal
