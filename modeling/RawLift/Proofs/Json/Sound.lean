import RawLift.Proofs.Json.ReadBack

/-!
Whatever is read is readable: a repeated key counts once, longer integers are refused, and no text
stands for an unwritable leaf.
-/

namespace RawLift

/-! ### Integers -/

namespace Decimal

theorem lt_ten_of_digit? {p : CodePoint} {d : Nat} (digit : digit? p = some d) : d < 10 := by
  cases p with
  | surrogate i => simp [digit?] at digit
  | char c =>
    simp only [digit?] at digit
    split at digit
    next inRange =>
      obtain rfl := Option.some.inj digit
      have top : c.toNat ≤ '9'.toNat := inRange.2
      simp at top ⊢
      omega
    next => simp at digit

theorem lt_ten_of_mem_takeDigits (t : Text) : ∀ d ∈ (takeDigits t).1, d < 10 := by
  fun_induction takeDigits t with
  | case1 => simp
  | case2 p rest d digit ds after taken ih =>
    rw [taken] at ih
    rw [List.forall_mem_cons]
    exact ⟨lt_ten_of_digit? digit, ih⟩
  | case3 => simp

theorem ofDigits_lt {ds : List Nat} (small : ∀ d ∈ ds, d < 10) : ofDigits ds < 10 ^ ds.length := by
  induction ds using List.reverseRecOn with
  | nil => decide
  | append_singleton ds d ih =>
    rw [List.forall_mem_append] at small
    have front := ih small.1
    have last := small.2 d (List.mem_singleton.mpr rfl)
    rw [ofDigits_append_one, List.length_append, List.length_singleton, Nat.pow_succ]
    omega

end Decimal

namespace Json

theorem readableInt_of_ofDigits {ds : List Nat} (small : ∀ d ∈ ds, d < 10)
    (short : ds.length ≤ longestInteger) {n : Int} (value : n.natAbs = Decimal.ofDigits ds) :
    ReadableInt n := by
  have below := Decimal.ofDigits_lt small
  rw [ReadableInt, Decimal.length_digits, value]
  by_cases zero : Decimal.ofDigits ds = 0
  · rw [zero, Nat.log_zero_right]
    decide
  · have := Nat.log_lt_of_lt_pow zero below
    omega

theorem lt_ten_of_mem_takeWhole (t : Text) : ∀ d ∈ (takeWhole t).1, d < 10 := by
  fun_cases takeWhole t with
  | case1 => simp
  | case2 => exact Decimal.lt_ten_of_mem_takeDigits t

theorem readable_of_number {n : Numeral} (small : ∀ d ∈ n.whole, d < 10) {number : Number}
    (value : n.number = .ok number) : (Value.number number).Readable := by
  rw [Numeral.number] at value
  split at value
  · split at value
    · simp at value
    next short =>
      obtain rfl := Except.ok.inj value
      refine .int (readableInt_of_ofDigits small (Nat.not_lt.mp short) ?_)
      split <;> omega
  · obtain rfl := Except.ok.inj value
    exact .real _

theorem whole_of_takeNumeral {s : Text} {r : Read Numeral s} (taken : takeNumeral s = some r) :
    r.value.whole = (takeWhole (takeMinus s).2).1 := by
  rw [takeNumeral] at taken
  split at taken
  · simp at taken
  · obtain rfl := Option.some.inj taken
    rfl

theorem readable_of_mem_words : ∀ w ∈ words, w.2.Readable := by
  simp [words, Value.Readable.null, Value.Readable.bool, Value.Readable.real]

theorem bind_eq_ok {ε α β : Type} {x : Except ε α} {f : α → Except ε β} {b : β}
    (bound : x >>= f = .ok b) : ∃ a, x = .ok a ∧ f a = .ok b := by
  cases x with
  | error => simp [bind, Except.bind] at bound
  | ok a => exact ⟨a, rfl, bound⟩

theorem readable_of_readScalar {s : Text} {r : Read Value s} (read : readScalar s = .ok r) :
    r.value.Readable := by
  rw [readScalar] at read
  split at read
  next word value found =>
    split at read
    · obtain rfl := Except.ok.inj read
      exact readable_of_mem_words _ (List.mem_of_find?_eq_some found)
    · simp at read
  next =>
    split at read
    next numeral taken =>
      obtain ⟨number, value, read⟩ := bind_eq_ok read
      obtain rfl := Except.ok.inj read
      refine readable_of_number ?_ value
      rw [whole_of_takeNumeral taken]
      exact lt_ten_of_mem_takeWhole _
    next => simp at read

end Json

/-! ### Objects -/

namespace Members

theorem readable_insert {ms : Members} (readable : (Value.object ms).Readable) (k : Text)
    {v : Value} (value : v.Readable) : (Value.object (ms.insert k v)).Readable := by
  cases readable with
  | object distinct members =>
    refine .object (nodup_insert distinct k v) ?_
    intro m mem
    rcases mem_of_mem_insert mem with same | old
    · rwa [same]
    · exact members m old

theorem readable_ofPairs {pairs : List (Text × Value)} (readable : ∀ m ∈ pairs, m.2.Readable) :
    (Value.object (ofPairs pairs)).Readable := by
  have filled {held : Members} (start : (Value.object held).Readable) :
      (Value.object (pairs.foldl (fun ms m => insert m.1 m.2 ms) held)).Readable := by
    induction pairs generalizing held with
    | nil => exact start
    | cons m pairs ih =>
      rw [List.forall_mem_cons] at readable
      exact ih readable.2 (readable_insert start m.1 readable.1)
  have empty : (Value.object []).Readable := .object List.nodup_nil (by simp)
  exact filled empty

end Members

namespace Json

/-! ### Values -/

/-- What each of the readers gives is readable. -/
theorem readable_of_readers :
    (∀ s (r : Read Value s), readValue s = .ok r → r.value.Readable) ∧
      (∀ s (r : Read (List (Text × Value)) s), readMembers s = .ok r →
        ∀ m ∈ r.value, m.2.Readable) ∧
      ∀ s (r : Read (List Value) s), readElements s = .ok r → ∀ v ∈ r.value, v.Readable := by
  refine readValue.mutual_induct _ _ _ ?noValue ?string ?emptyArray ?array ?emptyObject ?object
    ?scalar ?noMember ?noName ?member ?element
  case noValue =>
    intro r read
    simp [readValue] at read
  case string =>
    intro rest _ r read
    rw [readValue, if_pos rfl] at read
    obtain ⟨string, -, read⟩ := bind_eq_ok read
    obtain rfl := Except.ok.inj read
    exact .string _
  case emptyArray =>
    intro rest _ close marked _ r read
    rw [readValue, if_neg (by decide), if_pos rfl, marked] at read
    obtain rfl := Except.ok.inj read
    exact .array (by simp)
  case array =>
    intro rest _ unmarked _ ih r read
    rw [readValue, if_neg (by decide), if_pos rfl, unmarked] at read
    obtain ⟨elements, inside, read⟩ := bind_eq_ok read
    obtain rfl := Except.ok.inj read
    exact .array (ih elements inside)
  case emptyObject =>
    intro rest _ close marked _ _ r read
    rw [readValue, if_neg (by decide), if_neg (by decide), if_pos rfl, marked] at read
    obtain rfl := Except.ok.inj read
    exact .object List.nodup_nil (by simp)
  case object =>
    intro rest _ unmarked _ _ ih r read
    rw [readValue, if_neg (by decide), if_neg (by decide), if_pos rfl, unmarked] at read
    obtain ⟨members, inside, read⟩ := bind_eq_ok read
    obtain rfl := Except.ok.inj read
    exact Members.readable_ofPairs (ih members inside)
  case scalar =>
    intro p rest _ quote bracket brace r read
    rw [readValue, if_neg quote, if_neg bracket, if_neg brace] at read
    exact readable_of_readScalar read
  case noMember =>
    intro r read
    simp [readMembers] at read
  case noName =>
    intro p rest noQuote _ _ r read
    rw [readMembers, if_pos noQuote] at read
    cases read
  case member =>
    intro p rest quote ihValue ihMore r read
    rw [readMembers, if_neg quote] at read
    obtain ⟨name, -, read⟩ := bind_eq_ok read
    split at read
    · cases read
    next colon _ =>
    obtain ⟨value, readValue, read⟩ := bind_eq_ok read
    have first := ihValue name colon value readValue
    split at read
    · obtain rfl := Except.ok.inj read
      simpa [Read.map, Read.widen] using first
    next =>
    split at read
    next comma _ =>
      obtain ⟨more, readMore, read⟩ := bind_eq_ok read
      obtain rfl := Except.ok.inj read
      have rest := ihMore name colon value comma more readMore
      exact List.forall_mem_cons.mpr ⟨first, rest⟩
    next => cases read
  case element =>
    intro s ihValue ihMore r read
    rw [readElements] at read
    obtain ⟨first, readFirst, read⟩ := bind_eq_ok read
    have here := ihValue first readFirst
    split at read
    · obtain rfl := Except.ok.inj read
      simpa [Read.map, Read.widen] using here
    next =>
    split at read
    next comma _ =>
      obtain ⟨more, readMore, read⟩ := bind_eq_ok read
      obtain rfl := Except.ok.inj read
      have rest := ihMore first comma more readMore
      exact List.forall_mem_cons.mpr ⟨here, rest⟩
    next => cases read

/-- Every value that is read off a text is readable. -/
theorem readable_of_read {s : Text} {v : Value} (got : read s = .ok v) : v.Readable := by
  rw [read] at got
  split at got
  · cases got
  obtain ⟨r, value, got⟩ := bind_eq_ok got
  split at got
  · obtain rfl := Except.ok.inj got
    exact readable_of_readers.1 _ r value
  · cases got

end Json

end RawLift
