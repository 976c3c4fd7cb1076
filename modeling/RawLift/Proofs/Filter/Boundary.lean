import RawLift.Gap
import RawLift.Proofs.Filter.ReadBack
import RawLift.Proofs.Text.Utf8

/-!
Where the filter can fail. What is given as a text or as octets is refused if the octets are no
UTF-8, if the text is not JSON, or if its root is none that the rule accepts, each in a stage of its
own. Whatever else is given becomes a document, and whatever that holds, it is unwrapped and written
unless the indent is too wide: to be counted, for any document on any machine, or for the memory of
this one.
-/

namespace RawLift

/-! ### What is given -/

namespace Source

/-- The text that a source gives: itself, or the one that its octets encode. -/
inductive Gives : Source → Text → Prop where
  | text (t : Text) : Gives (.text t) t
  | octets {bs : Utf8.Octets} {t : Text} : Utf8.encode t = .ok bs → Gives (.octets bs) t

/-- A text or octets, as opposed to a stream or a path. -/
def IsGiven : Source → Prop
  | text _ | octets _ => True
  | _ => False

theorem read_of_gives {s : Source} {t : Text} (gives : s.Gives t) : s.read = .ok t := by
  cases gives with
  | text => rfl
  | octets encoded =>
    rw [read, decoded, Utf8.decode_eq_ok_iff.mpr encoded]

theorem Gives.unique {s : Source} {t t' : Text} (gives : s.Gives t) (gives' : s.Gives t') :
    t = t' :=
  Except.ok.inj ((read_of_gives gives).symm.trans (read_of_gives gives'))

/-- Octets that are no UTF-8. -/
def IsGarbled (s : Source) : Prop := ∃ bs, s = octets bs ∧ ∀ t, Utf8.encode t ≠ .ok bs

theorem isGarbled_iff {s : Source} (given : s.IsGiven) : s.IsGarbled ↔ ∀ t, ¬ s.Gives t := by
  constructor
  · rintro ⟨bs, rfl, garbled⟩ t (_ | encoded)
    exact garbled t encoded
  · intro none
    cases s with
    | text t => exact absurd (.text t) (none t)
    | octets bs => exact ⟨bs, rfl, fun t encoded => none t (.octets encoded)⟩
    | _ => exact given.elim

theorem read_of_isGarbled {s : Source} (garbled : s.IsGarbled) :
    ∃ fault, s.read = .error (.invalidUtf8 fault) := by
  obtain ⟨bs, rfl, garbled⟩ := garbled
  cases decoding : Utf8.decode bs with
  | error fault => exact ⟨fault, by rw [read, decoded, decoding]⟩
  | ok t => exact absurd (Utf8.decode_eq_ok_iff.mp decoding) (garbled t)

end Source

/-! ### Stages -/

/-- A root is an object; a strict rule asks for blocks or metadata in it. -/
def RootRule.Accepts (rule : RootRule) (v : Value) : Prop :=
  ∃ ms : Members, v = .object ms ∧
    (rule.strict = true → blocksKey ∈ ms.keys ∨ metadataKey ∈ ms.keys)

/-- The stage of reading that a failure is reported in. -/
def Failure.stage? (f : Failure) : Option Text :=
  match f.report with
  | .parsing _ stage => stage
  | _ => none

namespace Document

/-- Parsing fails in a stage of reading. -/
def FailsAt (rule : RootRule) (s : Source) (stage : Text) : Prop :=
  ∃ f, parse rule s = .error f ∧ f.stage? = some stage

variable {rule : RootRule} {s : Source} {t : Text} {v : Value}

theorem FailsAt.unique {stage stage' : Text} (fails : FailsAt rule s stage)
    (fails' : FailsAt rule s stage') : stage = stage' := by
  obtain ⟨f, failed, reported⟩ := fails
  obtain ⟨f', failed', reported'⟩ := fails'
  obtain rfl := Except.error.inj (failed.symm.trans failed')
  exact Option.some.inj (reported.symm.trans reported')

theorem FailsAt.not_ok {stage : Text} (fails : FailsAt rule s stage) :
    ¬ ∃ d, parse rule s = .ok d := by
  rintro ⟨d, parsed⟩
  obtain ⟨f, failed, -⟩ := fails
  cases parsed.symm.trans failed

theorem parse_of_read (given : s.read = .ok t) : parse rule s = ofText rule t := by
  rw [parse, given]
  rfl

theorem parse_of_read_error {f : Failure} (refused : s.read = .error f) :
    parse rule s = .error f := by
  rw [parse, refused]
  rfl

theorem failsAt_reading (garbled : s.IsGarbled) : FailsAt rule s Failure.readingStage := by
  obtain ⟨fault, failed⟩ := Source.read_of_isGarbled garbled
  exact ⟨.invalidUtf8 fault, parse_of_read_error failed, rfl⟩

theorem parse_of_gives (gives : s.Gives t) : parse rule s = ofText rule t :=
  parse_of_read (Source.read_of_gives gives)

theorem failsAt_syntax (gives : s.Gives t) (noValue : ∀ v, Json.read t ≠ .ok v)
    (bounded : ∀ digits, Json.read t ≠ .error (.longInteger digits)) :
    FailsAt rule s Failure.syntaxStage := by
  rw [FailsAt, parse_of_gives gives]
  cases read : Json.read t with
  | ok v => exact absurd read (noValue v)
  | error e =>
    cases e with
    | malformed fault rest => exact ⟨.malformedJson t fault rest, by rw [ofText, read], rfl⟩
    | longInteger digits => exact absurd read (bounded digits)

theorem failsAt_validation (gives : s.Gives t) (read : Json.read t = .ok v)
    (refused : ¬ rule.Accepts v) : FailsAt rule s Failure.validationStage := by
  rw [FailsAt, parse_of_gives gives, ofText, read]
  cases v with
  | object ms =>
    have unknown : rule.strict = true ∧ blocksKey ∉ Members.keys ms ∧
        metadataKey ∉ Members.keys ms := by
      by_contra known
      refine refused ⟨ms, rfl, fun strict => ?_⟩
      by_contra neither
      exact known ⟨strict, not_or.mp neither⟩
    exact ⟨.noKnownMember, by simp only [if_pos unknown], rfl⟩
  | _ => exact ⟨.notAnObject _, rfl, rfl⟩

theorem exists_parse_of_accepts (gives : s.Gives t) (read : Json.read t = .ok v)
    (accepted : rule.Accepts v) : ∃ d, parse rule s = .ok d := by
  obtain ⟨ms, rfl, known⟩ := accepted
  rw [parse_of_gives gives]
  refine ⟨ofMembers ms, ofText_of_read read ?_⟩
  rintro ⟨strict, noBlocks, noMetadata⟩
  exact (known strict).elim noBlocks noMetadata

/-- Why what is given is refused, and in which stage. -/
def Refused (rule : RootRule) (s : Source) (stage : Text) : Prop :=
  (stage = Failure.readingStage ∧ s.IsGarbled) ∨
  (stage = Failure.syntaxStage ∧ ∃ t, s.Gives t ∧ ∀ v, Json.read t ≠ .ok v) ∨
  (stage = Failure.validationStage ∧
    ∃ t v, s.Gives t ∧ Json.read t = .ok v ∧ ¬ rule.Accepts v)

theorem refused_or_accepted (rule : RootRule) (given : s.IsGiven) :
    (∃ stage, Refused rule s stage) ∨
      ∃ t v, s.Gives t ∧ Json.read t = .ok v ∧ rule.Accepts v := by
  by_cases clear : ∃ t, s.Gives t
  · obtain ⟨t, gives⟩ := clear
    by_cases value : ∃ v, Json.read t = .ok v
    · obtain ⟨v, read⟩ := value
      by_cases accepted : rule.Accepts v
      · exact .inr ⟨t, v, gives, read, accepted⟩
      · exact .inl ⟨_, .inr (.inr ⟨rfl, t, v, gives, read, accepted⟩)⟩
    · exact .inl ⟨_, .inr (.inl ⟨rfl, t, gives, not_exists.mp value⟩)⟩
  · exact .inl ⟨_, .inl ⟨rfl, (Source.isGarbled_iff given).mpr (not_exists.mp clear)⟩⟩

section

variable (bounded : ∀ t digits, s.Gives t → Json.read t ≠ .error (.longInteger digits))
include bounded

theorem failsAt_of_refused {stage : Text} (refused : Refused rule s stage) :
    FailsAt rule s stage := by
  rcases refused with ⟨rfl, garbled⟩ | ⟨rfl, t, gives, noValue⟩ |
    ⟨rfl, t, v, gives, read, unaccepted⟩
  · exact failsAt_reading garbled
  · exact failsAt_syntax gives noValue fun digits => bounded t digits gives
  · exact failsAt_validation gives read unaccepted

variable (given : s.IsGiven)
include given

theorem failsAt_iff_refused {stage : Text} : FailsAt rule s stage ↔ Refused rule s stage := by
  refine ⟨fun failed => ?_, failsAt_of_refused bounded⟩
  rcases refused_or_accepted rule given with ⟨stage', refused⟩ | ⟨t, v, gives, read, accepted⟩
  · rwa [failed.unique (failsAt_of_refused bounded refused)]
  · exact absurd (exists_parse_of_accepts gives read accepted) failed.not_ok

theorem exists_parse_iff_accepts : (∃ d, parse rule s = .ok d) ↔
    ∃ t v, s.Gives t ∧ Json.read t = .ok v ∧ rule.Accepts v := by
  constructor
  · intro parsed
    refine (refused_or_accepted rule given).resolve_left ?_
    rintro ⟨stage, refused⟩
    exact (failsAt_of_refused bounded refused).not_ok parsed
  · rintro ⟨t, v, gives, read, accepted⟩
    exact exists_parse_of_accepts gives read accepted

end

/-! ### Writing what has been parsed -/

/-- Whatever is parsed has JSON form again once it is unwrapped. -/
theorem readable_encode_of_parse {rule : RootRule} {s : Source} {d : Document}
    (parsed : parse rule s = .ok d) (o : Unwrap.Options) :
    (Unwrap.document o d).encode.Readable := by
  obtain ⟨ms, readable, rfl, -⟩ := exists_members_of_parse parsed
  have distinct := ((Value.readable_object ms).mp readable).1
  have encoded : (Unwrap.document o (.ofMembers ms)).encode =
      .object (ms.mapBlocks (Unwrap.values o)) :=
    congrArg Value.object (members_ofMembers distinct (Unwrap.blocks o))
  rw [encoded]
  exact Unwrap.readable_mapBlocks o readable

/-- A document that has been parsed is written in every layout but one with too wide an indent. -/
theorem render_of_parse [Json.Machine] {rule : RootRule} {s : Source} {d : Document}
    (parsed : parse rule s = .ok d) (o : Unwrap.Options) (l : Json.Layout) :
    (Unwrap.document o d).render l =
      match l.excess? with
      | some excess => .error (.wideIndent excess)
      | none => .ok (Json.valueText l 0 (Unwrap.document o d).encode) := by
  have leaves := (readable_encode_of_parse parsed o).isJson
  rw [render, Json.write, Json.obstacle?, leaves]
  cases l.excess? <;> rfl

theorem gap?_of_parse {rule : RootRule} {s : Source} {d : Document}
    (parsed : parse rule s = .ok d) (o : Unwrap.Options) :
    Unwrap.gap? o (d.blocks.getD []) = none := by
  obtain ⟨ms, -, rfl, -⟩ := exists_members_of_parse parsed
  exact Unwrap.gap?_ofMembers o ms

end Document

section
variable [Json.Machine]

namespace Json.Layout

variable {l : Layout}

theorem excess?_of_uncounted {width : Nat} (indent : l.indent = some width)
    (wide : countLimit ≤ width) : l.excess? = some .count := by
  simp only [excess?, indent, if_pos wide]

theorem excess?_of_fits (counted : ∀ width ∈ l.indent, width < countLimit) (fits : l.Fits) :
    l.excess? = none := by
  rw [excess?]
  cases indent : l.indent with
  | none => rfl
  | some width =>
    have counts : ¬ countLimit ≤ width := Nat.not_le.mpr (counted width indent)
    have held : ¬ Machine.memoryLimit ≤ width := Nat.not_le.mpr (fits width indent)
    simp only [if_neg counts, if_neg held]

end Json.Layout

theorem filterDocument_of_parse {rule : RootRule} {s : Source} {d : Document}
    (parsed : Document.parse rule s = .ok d) (o : Unwrap.Options) (l : Json.Layout) :
    filterDocument o rule l s = (Unwrap.document o d).render l := by
  rw [filterDocument, parsed]
  rfl

theorem filterDocument_of_parse_error {rule : RootRule} {s : Source} {f : Failure}
    (refused : Document.parse rule s = .error f) (o : Unwrap.Options) (l : Json.Layout) :
    filterDocument o rule l s = .error f := by
  rw [filterDocument, refused]
  rfl

theorem filterDocument_eq_ok_iff {rule : RootRule} {s : Source} {o : Unwrap.Options}
    {l : Json.Layout} {t : Text} : filterDocument o rule l s = .ok t ↔
      ∃ d, Document.parse rule s = .ok d ∧ (Unwrap.document o d).render l = .ok t := by
  cases parsed : Document.parse rule s with
  | error f => simp [filterDocument_of_parse_error parsed]
  | ok d => simp [filterDocument_of_parse parsed]

/-- What is given as text or octets, its numbers within bounds, is refused exactly at the boundary:
octets that are no UTF-8, text that is no JSON, roots that the rule does not accept. All else is a
document that has no gap to stop at. An indent that cannot be counted keeps it from being written,
and nothing else does as long as there is memory for the indent. -/
theorem parse_boundary (rule : RootRule) {s : Source} (given : s.IsGiven)
    (bounded : ∀ t digits, s.Gives t → Json.read t ≠ .error (.longInteger digits)) :
    (Document.FailsAt rule s Failure.readingStage ↔ s.IsGarbled) ∧
    (Document.FailsAt rule s Failure.syntaxStage ↔
      ∃ t, s.Gives t ∧ ∀ v, Json.read t ≠ .ok v) ∧
    (Document.FailsAt rule s Failure.validationStage ↔
      ∃ t v, s.Gives t ∧ Json.read t = .ok v ∧ ¬ rule.Accepts v) ∧
    ((∃ d, Document.parse rule s = .ok d) ↔
      ∃ t v, s.Gives t ∧ Json.read t = .ok v ∧ rule.Accepts v) ∧
    ∀ d, Document.parse rule s = .ok d → ∀ (o : Unwrap.Options) (l : Json.Layout),
      Unwrap.gap? o (d.blocks.getD []) = none ∧
      (∀ width, l.indent = some width → Json.Layout.countLimit ≤ width →
        filterDocument o rule l s = .error (.wideIndent .count)) ∧
      ((∀ width ∈ l.indent, width < Json.Layout.countLimit) → l.Fits →
        ∃ t, filterDocument o rule l s = .ok t) := by
  have stages : Failure.readingStage ≠ Failure.syntaxStage ∧
      Failure.readingStage ≠ Failure.validationStage ∧
      Failure.syntaxStage ≠ Failure.validationStage := by decide
  obtain ⟨readingSyntax, readingValidation, syntaxValidation⟩ := stages
  simp only [Document.failsAt_iff_refused bounded given]
  refine ⟨?_, ?_, ?_, Document.exists_parse_iff_accepts bounded given,
    fun d parsed o l => ⟨Document.gap?_of_parse parsed o, ?_, ?_⟩⟩
  · simp [Document.Refused, readingSyntax, readingValidation]
  · simp [Document.Refused, readingSyntax.symm, syntaxValidation]
  · simp [Document.Refused, readingValidation.symm, syntaxValidation.symm]
  · intro width indent wide
    rw [filterDocument_of_parse parsed, Document.render_of_parse parsed,
      Json.Layout.excess?_of_uncounted indent wide]
  · intro counted fits
    rw [filterDocument_of_parse parsed, Document.render_of_parse parsed,
      Json.Layout.excess?_of_fits counted fits]
    exact ⟨_, rfl⟩

end

/-- The octets of a text that is accepted. -/
def accentedOctets : Utf8.Octets := (Utf8.encode accentedText).toOption.getD []

theorem gives_accentedOctets : (Source.octets accentedOctets).Gives accentedText := .octets rfl

theorem parse_accentedOctets :
    Document.parse {} (.octets accentedOctets) = .ok (.ofMembers accented) := by
  rw [Document.parse_of_gives gives_accentedOctets]
  exact Document.ofText_of_read read_accentedText (by decide)

/-- An object without members, which a rule that is not strict accepts. -/
def emptyObject : Text := "\x7b\x7d"

/-- More columns than can be counted. -/
def countless : Json.Layout := { indent := some Json.Layout.countLimit }

section
attribute [local instance] Json.Machine.roomy

theorem parse_boundary_accented :
    (Source.octets accentedOctets).IsGiven ∧
      (∀ t digits, (Source.octets accentedOctets).Gives t →
        Json.read t ≠ .error (.longInteger digits)) ∧
      ¬ Document.FailsAt {} (.octets accentedOctets) Failure.validationStage ∧
      (∃ t, filterDocument {} {} indentedAscii (.octets accentedOctets) = .ok t) ∧
      filterDocument {} {} countless (.octets accentedOctets) = .error (.wideIndent .count) := by
  have given : (Source.octets accentedOctets).IsGiven := trivial
  have bounded (t : Text) (digits : Nat) (gives : (Source.octets accentedOctets).Gives t) :
      Json.read t ≠ .error (.longInteger digits) := by
    rw [gives.unique gives_accentedOctets, read_accentedText]
    simp
  have accepted : RootRule.Accepts {} (.object accented) := ⟨accented, rfl, by decide⟩
  obtain ⟨-, -, -, parsed, written⟩ := parse_boundary {} given bounded
  obtain ⟨d, parsed⟩ := parsed.mpr ⟨_, _, gives_accentedOctets, read_accentedText, accepted⟩
  refine ⟨given, bounded, fun fails => fails.not_ok ⟨d, parsed⟩, ?_, ?_⟩
  · exact (written d parsed {} indentedAscii).2.2 (by decide) (by decide)
  · exact (written d parsed {} countless).2.1 _ rfl le_rfl

end

/-- The document is there, and no layout of it on any machine. -/
theorem filterDocument_countless :
    (∃ d, Document.parse ⟨false⟩ (.text emptyObject) = .ok d) ∧ ∀ _ : Json.Machine,
      ¬ ∃ t, filterDocument {} ⟨false⟩ countless (.text emptyObject) = .ok t := by
  have read : Json.read emptyObject = .ok (.object []) := by cbv
  have parsed : Document.parse ⟨false⟩ (.text emptyObject) = .ok (.ofMembers []) :=
    Document.ofText_of_read read (by decide)
  refine ⟨⟨_, parsed⟩, fun _ => ?_⟩
  rw [filterDocument_of_parse parsed, Document.render_of_parse parsed,
    Json.Layout.excess?_of_uncounted rfl le_rfl]
  rintro ⟨t, written⟩
  cases written

end RawLift
