import RawLift.Json.Reader

/-!
The steps of reading. Each rule says from what a reader takes its value, and which text it leaves,
once the parts before it have been read.
-/

namespace RawLift.Json

/-- Reading succeeds with this value, and this text is left. -/
def Reads {α : Type} {s : Text} (result : Except ReadError (Read α s)) (value : α) (rest : Text) :
    Prop :=
  ∃ shorter, result = .ok ⟨value, rest, shorter⟩

/-! ### Marks -/

theorem mark?_eq_some {mark : Char} {s rest : Text} (next : skipBlank s = .char mark :: rest) :
    ∃ shorter, mark? mark s = some ⟨(), rest, shorter⟩ := by
  have shorter : rest.length < s.length := by
    have := skipBlank_length s
    rw [next, List.length_cons] at this
    omega
  refine ⟨shorter, ?_⟩
  rw [mark?]
  split
  next empty => simp [empty] at next
  next p after shape =>
    obtain ⟨rfl, rfl⟩ := List.cons.inj (shape.symm.trans next)
    rw [if_pos rfl]

theorem mark?_eq_none {mark : Char} {s rest : Text} {p : CodePoint} (next : skipBlank s = p :: rest)
    (other : p ≠ .char mark) : mark? mark s = none := by
  rw [mark?]
  split
  next => rfl
  next q after shape =>
    obtain ⟨rfl, rfl⟩ := List.cons.inj (shape.symm.trans next)
    rw [if_neg other]

/-! ### Values -/

section
variable {s rest : Text}

theorem reads_string {t : Text} (string : Reads (readString s) t rest) :
    Reads (readValue (.char '"' :: s)) (.string t) rest := by
  obtain ⟨shorter, read⟩ := string
  rw [readValue, if_pos rfl, read]
  exact ⟨_, rfl⟩

theorem reads_scalar {p : CodePoint} {v : Value} (scalar : Reads (readScalar (p :: s)) v rest)
    (opening : p ≠ .char '"' ∧ p ≠ .char '[' ∧ p ≠ .char '\x7b') :
    Reads (readValue (p :: s)) v rest := by
  rw [readValue, if_neg opening.1, if_neg opening.2.1, if_neg opening.2.2]
  exact scalar

theorem reads_emptyArray (close : skipBlank s = .char ']' :: rest) :
    Reads (readValue (.char '[' :: s)) (.array []) rest := by
  obtain ⟨shorter, marked⟩ := mark?_eq_some close
  rw [readValue, if_neg (by decide), if_pos rfl, marked]
  exact ⟨_, rfl⟩

theorem reads_array {p : CodePoint} {t : Text} (next : skipBlank s = p :: t)
    (opened : p ≠ .char ']') {vs : List Value} (elements : Reads (readElements (p :: t)) vs rest) :
    Reads (readValue (.char '[' :: s)) (.array vs) rest := by
  have unmarked := mark?_eq_none next opened
  rw [← next] at elements
  obtain ⟨shorter, read⟩ := elements
  rw [readValue, if_neg (by decide), if_pos rfl, unmarked]
  simp only [read, bind, Except.bind]
  exact ⟨_, rfl⟩

theorem reads_emptyObject (close : skipBlank s = .char '\x7d' :: rest) :
    Reads (readValue (.char '\x7b' :: s)) (.object []) rest := by
  obtain ⟨shorter, marked⟩ := mark?_eq_some close
  rw [readValue, if_neg (by decide), if_neg (by decide), if_pos rfl, marked]
  exact ⟨_, rfl⟩

theorem reads_object {p : CodePoint} {t : Text} (next : skipBlank s = p :: t)
    (opened : p ≠ .char '\x7d') {pairs : List (Text × Value)}
    (members : Reads (readMembers (p :: t)) pairs rest) :
    Reads (readValue (.char '\x7b' :: s)) (.object (Members.ofPairs pairs)) rest := by
  have unmarked := mark?_eq_none next opened
  rw [← next] at members
  obtain ⟨shorter, read⟩ := members
  rw [readValue, if_neg (by decide), if_neg (by decide), if_pos rfl, unmarked]
  simp only [read, bind, Except.bind]
  exact ⟨_, rfl⟩

end

/-! ### Elements and members -/

section
variable {s mid after rest : Text} {v : Value} (value : Reads (readValue s) v mid)
include value

theorem reads_lastElement (close : skipBlank mid = .char ']' :: rest) :
    Reads (readElements s) [v] rest := by
  obtain ⟨shorter, read⟩ := value
  obtain ⟨shorter', marked⟩ := mark?_eq_some close
  rw [readElements, read]
  simp only [bind, Except.bind, marked]
  exact ⟨_, rfl⟩

theorem reads_nextElement (comma : skipBlank mid = .char ',' :: after) {vs : List Value}
    (more : Reads (readElements (skipBlank after)) vs rest) :
    Reads (readElements s) (v :: vs) rest := by
  obtain ⟨shorter, read⟩ := value
  obtain ⟨shorter', marked⟩ := mark?_eq_some comma
  obtain ⟨shorter'', readMore⟩ := more
  have unmarked : mark? ']' mid = none := mark?_eq_none comma (by decide)
  rw [readElements, read]
  simp only [bind, Except.bind, marked, unmarked, readMore]
  exact ⟨_, rfl⟩

end

section
variable {s named colon mid after rest : Text} {k : Text} {v : Value}
  (name : Reads (readString s) k named) (next : skipBlank named = .char ':' :: colon)
  (value : Reads (readValue (skipBlank colon)) v mid)
include name next value

theorem reads_lastMember (close : skipBlank mid = .char '\x7d' :: rest) :
    Reads (readMembers (.char '"' :: s)) [(k, v)] rest := by
  obtain ⟨_, readName⟩ := name
  obtain ⟨_, markedColon⟩ := mark?_eq_some next
  obtain ⟨_, readValue⟩ := value
  obtain ⟨_, marked⟩ := mark?_eq_some close
  rw [readMembers]
  simp only [bind, Except.bind, readName, markedColon, readValue, marked]
  exact ⟨_, rfl⟩

theorem reads_nextMember (comma : skipBlank mid = .char ',' :: after) {pairs : List (Text × Value)}
    (more : Reads (readMembers (skipBlank after)) pairs rest) :
    Reads (readMembers (.char '"' :: s)) ((k, v) :: pairs) rest := by
  obtain ⟨_, readName⟩ := name
  obtain ⟨_, markedColon⟩ := mark?_eq_some next
  obtain ⟨_, readValue⟩ := value
  obtain ⟨_, marked⟩ := mark?_eq_some comma
  obtain ⟨_, readMore⟩ := more
  have unmarked : mark? '\x7d' mid = none := mark?_eq_none comma (by decide)
  rw [readMembers]
  simp only [bind, Except.bind, readName, markedColon, readValue, marked, unmarked, readMore]
  exact ⟨_, rfl⟩

end

/-- A text that holds one value is read as that value. -/
theorem read_of_reads {s : Text} {v : Value} (noMark : s.head? ≠ some byteOrderMark)
    (value : Reads (readValue (skipBlank s)) v []) : read s = .ok v := by
  obtain ⟨shorter, value⟩ := value
  simp only [read, noMark, if_false, bind, Except.bind, value]
  rfl

end RawLift.Json
