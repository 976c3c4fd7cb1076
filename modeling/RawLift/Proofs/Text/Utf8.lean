import Mathlib.Algebra.Group.Nat.Defs
import RawLift.Text.Utf8

/-!
The decoder accepts exactly what the encoder writes: the octets of characters one after another.
What completes a pending character is told by its number, of which the decoder has the upper bits
and each octet still owed has the next six.
-/

namespace RawLift.Utf8

/-! ### Octets of one number -/

/-- The last octets of a number, each with six of its bits. -/
def tailOf : Nat → Nat → Octets
  | 0, _ => []
  | owed + 1, n => .ofNat (0x80 + n / 64 ^ owed % 64) :: tailOf owed n

theorem length_tailOf (owed n : Nat) : (tailOf owed n).length = owed := by
  induction owed with
  | zero => rfl
  | succ owed ih => rw [tailOf, List.length_cons, ih]

/-- How many octets follow the first one of a number that is not ASCII. -/
def owedBy (n : Nat) : Nat := if n < 0x800 then 1 else if n < 0x10000 then 2 else 3

/-- The first octet of a number that is not ASCII: its upper bits behind a mark of its length. -/
def leadOf (n : Nat) : Nat :=
  if n < 0x800 then 0xC0 + n / 64
  else if n < 0x10000 then 0xE0 + n / 64 ^ 2
  else 0xF0 + n / 64 ^ 3

/-- The numbers below 0x110000 that are no surrogates. -/
def IsScalar (n : Nat) : Prop := n < 0xD800 ∨ (0xDFFF < n ∧ n < 0x110000)

theorem octetsOf_eq_cons {n : Nat} (least : 0x80 ≤ n) :
    octetsOf n = .ofNat (leadOf n) :: tailOf (owedBy n) n := by
  have noAscii : ¬ n < 0x80 := by omega
  rw [octetsOf, if_neg noAscii, leadOf, owedBy]
  split
  · simp [tailOf]
  · split <;> simp [tailOf]

theorem isScalar_toNat (c : Char) : IsScalar c.toNat := by
  have := c.valid
  simp only [UInt32.isValidChar, Nat.isValidChar] at this
  unfold IsScalar Char.toNat
  omega

theorem exists_char {n : Nat} (scalar : IsScalar n) : ∃ c : Char, c.toNat = n := by
  unfold IsScalar at scalar
  have valid : n.isValidChar := by unfold Nat.isValidChar; omega
  refine ⟨.ofNat n, ?_⟩
  rw [Char.ofNat, dif_pos valid]
  rfl

theorem ofNat_toNat (c : Char) : CodePoint.ofNat c.toNat = .char c :=
  CodePoint.ofNat_value (.char c)

/-! ### A pending character -/

/-- A number whose upper bits are those of a pending character, and whose next six bits fall into
the range of its next octet. -/
structure Pending.Fits (p : Pending) (n : Nat) : Prop where
  bits : n / 64 ^ p.owed = p.bits
  low : p.low.toNat ≤ 0x80 + n / 64 ^ (p.owed - 1) % 64
  high : 0x80 + n / 64 ^ (p.owed - 1) % 64 ≤ p.high.toNat

/-- A pending character asks for continuation octets only, and for one at least. -/
structure Pending.Sound (p : Pending) : Prop where
  owed : p.owed ≠ 0
  low : 0x80 ≤ p.low.toNat
  high : p.high.toNat ≤ 0xBF

/-- What a first octet opens are the numbers that it is the first octet of. -/
theorem sound_of_opens {b : UInt8} {p : Pending} (opens : first b = .opens p) :
    p.Sound ∧ ∀ n, (p.Fits n ↔ 0x80 ≤ n ∧ IsScalar n ∧ leadOf n = b.toNat) ∧
      (p.Fits n → p.owed = owedBy n) := by
  rw [first] at opens
  split at opens
  · cases opens
  split at opens
  · cases opens
  -- One goal for each row of the table of first octets.
  iterate 7
    split at opens
    · obtain rfl := First.opens.inj opens
      refine ⟨by constructor <;> simp, fun n => ⟨⟨fun ⟨bits, low, high⟩ => ?_, ?_⟩, ?_⟩⟩
      · simp only [UInt8.reduceToNat] at bits low high
        simp only [IsScalar, leadOf]
        grind
      · rintro ⟨least, scalar, lead⟩
        simp only [IsScalar, leadOf] at scalar lead
        constructor <;> simp only [UInt8.reduceToNat] <;> grind
      · rintro ⟨bits, low, high⟩
        simp only [UInt8.reduceToNat] at bits low high
        simp only [owedBy]
        grind
  cases opens

theorem exists_first_eq_opens {b : UInt8} (least : 0xC2 ≤ b.toNat) (most : b.toNat ≤ 0xF4) :
    ∃ p, first b = .opens p := by
  cases opened : first b with
  | opens p => exact ⟨p, rfl⟩
  | whole n => grind [first]
  | invalid => grind [first]

theorem leadOf_bounds {n : Nat} (least : 0x80 ≤ n) (scalar : IsScalar n) :
    0xC2 ≤ leadOf n ∧ leadOf n ≤ 0xF4 := by
  simp only [IsScalar, leadOf] at scalar ⊢
  grind

/-- Every number that is not ASCII is opened by its first octet. -/
theorem exists_opens {n : Nat} (least : 0x80 ≤ n) (scalar : IsScalar n) :
    ∃ p, first (.ofNat (leadOf n)) = .opens p ∧ p.Fits n ∧ p.owed = owedBy n := by
  obtain ⟨atLeast, atMost⟩ := leadOf_bounds least scalar
  have lead : (UInt8.ofNat (leadOf n)).toNat = leadOf n := by
    rw [UInt8.toNat_ofNat']
    omega
  obtain ⟨p, opens⟩ := exists_first_eq_opens (b := .ofNat (leadOf n)) (by omega) (by omega)
  obtain ⟨fits, owed⟩ := (sound_of_opens opens).2 n
  have fitting := fits.mpr ⟨least, scalar, lead.symm⟩
  exact ⟨p, opens, fitting, owed fitting⟩

/-- The next octet of a pending character adds its six bits to those that are known. -/
theorem Pending.fits_and_octet_iff {p : Pending} (sound : p.Sound) {owed n : Nat} {b : UInt8}
    (owes : p.owed = owed + 1) :
    (p.Fits n ∧ b = .ofNat (0x80 + n / 64 ^ owed % 64)) ↔
      (p.low ≤ b ∧ b ≤ p.high) ∧ n / 64 ^ owed = p.bits * 64 + (b.toNat - 0x80) := by
  have upper : n / 64 ^ (owed + 1) = n / 64 ^ owed / 64 := by
    rw [Nat.pow_succ, Nat.div_div_eq_div_mul]
  have octet : b = .ofNat (0x80 + n / 64 ^ owed % 64) ↔ b.toNat = 0x80 + n / 64 ^ owed % 64 := by
    rw [← UInt8.toNat_inj, UInt8.toNat_ofNat']
    omega
  have fits : p.Fits n ↔ n / 64 ^ owed / 64 = p.bits ∧
      p.low.toNat ≤ 0x80 + n / 64 ^ owed % 64 ∧ 0x80 + n / 64 ^ owed % 64 ≤ p.high.toNat := by
    rw [← upper]
    constructor
    · rintro ⟨bits, low, high⟩
      simp only [owes, Nat.add_sub_cancel] at bits low high
      exact ⟨bits, low, high⟩
    · rintro ⟨bits, low, high⟩
      constructor <;> simpa only [owes, Nat.add_sub_cancel]
  have := sound.low
  have := sound.high
  rw [fits, octet, UInt8.le_iff_toNat_le, UInt8.le_iff_toNat_le]
  omega

theorem map_eq_ok_iff {ε α β : Type} {f : α → β} {x : Except ε α} {b : β} :
    f <$> x = .ok b ↔ ∃ a, x = .ok a ∧ b = f a := by
  cases x with
  | error => simp [Functor.map, Except.map]
  | ok a => simp [Functor.map, Except.map, eq_comm]

/-- A pending character is completed by the octets that end one of its numbers. -/
theorem decodeFrom_some_iff {p : Pending} (sound : p.Sound) {lead : UInt8} {offset : Nat}
    {bs : Octets} {t : Text} :
    decodeFrom offset (some (p, lead)) bs = .ok t ↔ ∃ n rest t', p.Fits n ∧
      bs = tailOf p.owed n ++ rest ∧ t = .ofNat n :: t' ∧
      decodeFrom (offset + p.owed) none rest = .ok t' := by
  obtain ⟨owed, owes⟩ := Nat.exists_eq_succ_of_ne_zero sound.owed
  induction bs generalizing p offset owed with
  | nil => simp [decodeFrom, owes, tailOf]
  | cons b bs ih =>
    have octets (n : Nat) (rest : Octets) : b :: bs = tailOf p.owed n ++ rest ↔
        b = .ofNat (0x80 + n / 64 ^ owed % 64) ∧ bs = tailOf owed n ++ rest := by
      rw [owes, Nat.succ_eq_add_one, tailOf, List.cons_append, List.cons.injEq]
    have first (n : Nat) := Pending.fits_and_octet_iff sound (n := n) (b := b) owes
    have regroup : (∃ n rest t', p.Fits n ∧ b :: bs = tailOf p.owed n ++ rest ∧ t = .ofNat n :: t' ∧
          decodeFrom (offset + p.owed) none rest = .ok t') ↔
        (p.low ≤ b ∧ b ≤ p.high) ∧ ∃ n rest t', n / 64 ^ owed = p.bits * 64 + (b.toNat - 0x80) ∧
          bs = tailOf owed n ++ rest ∧ t = .ofNat n :: t' ∧
          decodeFrom (offset + 1 + owed) none rest = .ok t' := by
      have place : offset + p.owed = offset + 1 + owed := by omega
      simp only [octets, place]
      constructor
      · rintro ⟨n, rest, t', fits, ⟨octet, tail⟩, shape, decoded⟩
        obtain ⟨inRange, bits⟩ := (first n).mp ⟨fits, octet⟩
        exact ⟨inRange, n, rest, t', bits, tail, shape, decoded⟩
      · rintro ⟨inRange, n, rest, t', bits, tail, shape, decoded⟩
        obtain ⟨fits, octet⟩ := (first n).mpr ⟨inRange, bits⟩
        exact ⟨n, rest, t', fits, ⟨octet, tail⟩, shape, decoded⟩
    rw [regroup, decodeFrom]
    by_cases inRange : p.low ≤ b ∧ b ≤ p.high
    · rw [if_pos inRange]
      cases owed with
      | zero =>
        have last : p.owed = 1 := owes
        simp only [if_pos last, map_eq_ok_iff, Nat.pow_zero, Nat.div_one, tailOf, List.nil_append,
          Nat.add_zero]
        constructor
        · rintro ⟨t', decoded, shape⟩
          exact ⟨inRange, _, bs, t', rfl, rfl, shape, decoded⟩
        · rintro ⟨-, n, rest, t', bits, same, shape, decoded⟩
          exact ⟨t', same ▸ decoded, bits ▸ shape⟩
      | succ owed =>
        have further : p.owed ≠ 1 := by omega
        have sound' : Pending.Sound ⟨p.owed - 1, 0x80, 0xBF, p.bits * 64 + (b.toNat - 0x80),
            p.taken + 1⟩ := by
          constructor <;> simp; omega
        have owes' : p.owed - 1 = owed + 1 := by omega
        rw [if_neg further, ih sound' owed owes']
        simp only [owes', inRange, true_and]
        constructor
        · rintro ⟨n, rest, t', fits, shape⟩
          exact ⟨n, rest, t', by simpa only [owes'] using fits.bits, shape⟩
        · rintro ⟨n, rest, t', bits, shape⟩
          refine ⟨n, rest, t', ⟨bits, ?_, ?_⟩, shape⟩
          all_goals simp only [UInt8.reduceToNat]; omega
    · simp [inRange]

/-! ### Whole texts -/

/-- The octets of characters one after another. -/
def octetsOfAll (cs : List Char) : Octets := cs.flatMap fun c => octetsOf c.toNat

theorem encodeFrom_eq_ok_iff {offset : Nat} {t : Text} {bs : Octets} :
    encodeFrom offset t = .ok bs ↔ ∃ cs : List Char, t = cs.map .char ∧ bs = octetsOfAll cs := by
  induction t generalizing offset bs with
  | nil => simp [encodeFrom, octetsOfAll, eq_comm]
  | cons p t ih =>
    cases p with
    | surrogate i =>
      simp only [encodeFrom, reduceCtorEq, false_iff]
      rintro ⟨_ | ⟨c, cs⟩, shape, -⟩ <;> simp at shape
    | char c =>
      simp only [encodeFrom, map_eq_ok_iff, ih]
      constructor
      · rintro ⟨_, ⟨cs, rfl, rfl⟩, rfl⟩
        exact ⟨c :: cs, rfl, rfl⟩
      · rintro ⟨_ | ⟨c', cs⟩, shape, rfl⟩
        · cases shape
        · obtain ⟨⟨rfl⟩, rfl⟩ := List.cons.inj shape
          exact ⟨_, ⟨cs, rfl, rfl⟩, rfl⟩

theorem decodeFrom_octetsOf {c : Char} {offset : Nat} {rest : Octets} {t : Text}
    (decoded : decodeFrom (offset + (octetsOf c.toNat).length) none rest = .ok t) :
    decodeFrom offset none (octetsOf c.toNat ++ rest) = .ok (.char c :: t) := by
  by_cases ascii : c.toNat < 0x80
  · have alone : octetsOf c.toNat = [.ofNat c.toNat] := by rw [octetsOf, if_pos ascii]
    have octet : (UInt8.ofNat c.toNat).toNat = c.toNat := by
      rw [UInt8.toNat_ofNat']
      omega
    have whole : first (.ofNat c.toNat) = .whole c.toNat := by
      rw [first, octet, if_pos ascii]
    rw [alone, List.singleton_append, decodeFrom, whole]
    exact map_eq_ok_iff.mpr ⟨t, by rwa [alone] at decoded, by rw [ofNat_toNat]⟩
  · obtain ⟨p, opens, fits, owed⟩ := exists_opens (n := c.toNat) (by omega) (isScalar_toNat c)
    have octets := octetsOf_eq_cons (n := c.toNat) (by omega)
    rw [octets, List.cons_append, decodeFrom, opens]
    refine (decodeFrom_some_iff (sound_of_opens opens).1).mpr ⟨c.toNat, rest, t, fits, ?_, ?_, ?_⟩
    · rw [owed]
    · rw [ofNat_toNat]
    · rw [octets, ← owed] at decoded
      have place : offset + 1 + p.owed =
          offset + (UInt8.ofNat (leadOf c.toNat) :: tailOf p.owed c.toNat).length := by
        rw [List.length_cons, length_tailOf]
        omega
      rwa [place]

theorem first_eq_whole {b : UInt8} {n : Nat} (whole : first b = .whole n) :
    b.toNat = n ∧ n < 0x80 := by
  by_cases ascii : b.toNat < 0x80
  · rw [first, if_pos ascii] at whole
    obtain rfl := First.whole.inj whole
    exact ⟨rfl, ascii⟩
  · rw [first, if_neg ascii] at whole
    repeat' split at whole
    all_goals cases whole

/-- What the decoder takes off the front of octets is one character with all its octets. -/
theorem exists_octetsOf_of_decodeFrom {offset : Nat} {b : UInt8} {bs : Octets} {t : Text}
    (decoded : decodeFrom offset none (b :: bs) = .ok t) :
    ∃ (c : Char) (rest : Octets) (t' : Text) (offset' : Nat), b :: bs = octetsOf c.toNat ++ rest ∧
      t = .char c :: t' ∧ decodeFrom offset' none rest = .ok t' := by
  rw [decodeFrom] at decoded
  cases opened : first b with
  | whole n =>
    simp only [opened] at decoded
    obtain ⟨t', after, rfl⟩ := map_eq_ok_iff.mp decoded
    obtain ⟨rfl, ascii⟩ := first_eq_whole opened
    obtain ⟨c, number⟩ := exists_char (n := b.toNat) (.inl (by omega))
    refine ⟨c, bs, t', offset + 1, ?_, ?_, after⟩
    · rw [number, octetsOf, if_pos ascii, UInt8.ofNat_toNat, List.singleton_append]
    · rw [← number, ofNat_toNat]
  | opens p =>
    simp only [opened] at decoded
    obtain ⟨sound, fitting⟩ := sound_of_opens opened
    obtain ⟨n, rest, t', fits, rfl, rfl, after⟩ := (decodeFrom_some_iff sound).mp decoded
    obtain ⟨least, scalar, lead⟩ := (fitting n).1.mp fits
    obtain ⟨c, rfl⟩ := exists_char scalar
    refine ⟨c, rest, t', _, ?_, by rw [ofNat_toNat], after⟩
    rw [octetsOf_eq_cons least, lead, UInt8.ofNat_toNat, (fitting _).2 fits, List.cons_append]
  | invalid => simp [opened] at decoded

/-- The octets that decode are those of characters, whichever position they are counted from. -/
theorem decodeFrom_eq_ok_iff {offset : Nat} {t : Text} {bs : Octets} :
    decodeFrom offset none bs = .ok t ↔
      ∃ cs : List Char, t = cs.map .char ∧ bs = octetsOfAll cs := by
  constructor
  · induction t generalizing offset bs with
    | nil =>
      intro decoded
      cases bs with
      | nil => exact ⟨[], rfl, rfl⟩
      | cons b bs =>
        obtain ⟨_, _, _, _, -, shape, -⟩ := exists_octetsOf_of_decodeFrom decoded
        cases shape
    | cons p t ih =>
      intro decoded
      cases bs with
      | nil => cases decoded
      | cons b bs =>
        obtain ⟨c, rest, t', offset', octets, shape, decoded⟩ :=
          exists_octetsOf_of_decodeFrom decoded
        obtain ⟨rfl, rfl⟩ := List.cons.inj shape
        obtain ⟨cs, rfl, rfl⟩ := ih decoded
        exact ⟨c :: cs, rfl, octets⟩
  · rintro ⟨cs, rfl, rfl⟩
    induction cs generalizing offset with
    | nil => rfl
    | cons c cs ih => exact decodeFrom_octetsOf ih

/-- Decoding undoes encoding, and nothing but what is encoded can be decoded. -/
theorem decode_eq_ok_iff {bs : Octets} {t : Text} : decode bs = .ok t ↔ encode t = .ok bs := by
  rw [decode, encode, decodeFrom_eq_ok_iff, encodeFrom_eq_ok_iff]

/-- Surrogates are all that has no octets. -/
theorem exists_encode_eq_ok_iff {t : Text} :
    (∃ bs, encode t = .ok bs) ↔ ∀ i, .surrogate i ∉ t := by
  simp only [encode, encodeFrom_eq_ok_iff]
  constructor
  · rintro ⟨_, cs, rfl, -⟩ i
    simp
  · intro plain
    suffices chars : ∃ cs : List Char, t = cs.map .char by
      obtain ⟨cs, rfl⟩ := chars
      exact ⟨_, cs, rfl, rfl⟩
    induction t with
    | nil => exact ⟨[], rfl⟩
    | cons p t ih =>
      obtain ⟨cs, rfl⟩ := ih fun i mem => plain i (List.mem_cons_of_mem _ mem)
      cases p with
      | char c => exact ⟨c :: cs, rfl⟩
      | surrogate i => exact absurd List.mem_cons_self (plain i)

end RawLift.Utf8
