import RawLift.Proofs.Files.Kept
import RawLift.Proofs.Files.Path
import RawLift.Proofs.Filter.Boundary
import RawLift.Proofs.Target.Emptied

/-!
Routes in and out. A text is the same document whether it comes as it is, as its octets, by a stream
of either or in a file; octets that are no UTF-8 are refused alike by all their routes. What is
written by one route can be read by the one that matches it, and is then what was rendered.
-/

namespace RawLift

open Utf8 (Octets)

/-! ### Files -/

namespace Files

variable {files : Files} {path : Text} {bs : Octets} {place : Place}

/-- The path leads to a file with these octets, and the system takes the path. -/
structure Holds (files : Files) (path : Text) (bs : Octets) : Prop where
  sound : Path.fault? path = none
  found : ∃ place, files.locate (Path.shown path) (Path.names path) = .ok place ∧
    files.isDirectory place = false ∧ files.content? place = some bs

theorem holds_iff : files.Holds path bs ↔
    files.exists? path = .ok true ∧ files.read (Path.shown path) = .ok bs := by
  rw [exists?_eq_true_iff, read_eq_ok_iff, Path.names_shown]
  constructor
  · rintro ⟨sound, place, located, noDirectory, there⟩
    exact ⟨⟨sound, place, located, .inr ⟨bs, there⟩⟩, place, located, noDirectory, there⟩
  · rintro ⟨⟨sound, -⟩, found⟩
    exact ⟨sound, found⟩

/-- A file that has been written is where it was opened. -/
theorem holds_insert (sound : Path.fault? path = none)
    (opened : files.openPlace (Path.shown path) (Path.names path) = .ok place) :
    (files.insert place bs).Holds path bs := by
  have same := sameDirectories_insert (openable_of_openPlace opened) bs
  obtain ⟨located, noDirectory⟩ := openPlace_eq_ok_iff.mp (same.openPlace opened)
  exact ⟨sound, place, located, noDirectory, by rw [content?_insert, if_pos rfl]⟩

end Files

/-! ### Routes in -/

namespace Source

variable {s : Source} {t : Text} {bs : Octets}

/-- The routes for octets. -/
inductive Brings (bs : Octets) : Source → Prop
  | octets : Brings bs (.octets bs)
  | octetStream : Brings bs (.octetStream bs)
  | path {files : Files} {p : Text} (holds : files.Holds p bs) : Brings bs (.path files p)

/-- The routes for a text: its own, and those for its octets. -/
inductive Carries (t : Text) : Source → Prop
  | text : Carries t (.text t)
  | textStream : Carries t (.textStream t)
  | octets {bs : Octets} {s : Source} (encoded : Utf8.encode t = .ok bs) (brings : s.Brings bs) :
    Carries t s

theorem read_of_brings (brings : s.Brings bs) : s.read = decoded bs := by
  cases brings with
  | octets | octetStream => rfl
  | path holds =>
    obtain ⟨there, given⟩ := Files.holds_iff.mp holds
    simp only [read, there, given]

theorem read_of_carries (carries : s.Carries t) : s.read = .ok t := by
  cases carries with
  | text | textStream => rfl
  | octets encoded brings =>
    rw [read_of_brings brings, decoded, Utf8.decode_eq_ok_iff.mpr encoded]

end Source

namespace Document

variable {rule : RootRule} {s : Source} {t : Text} {bs : Octets}

theorem parse_of_carries (carries : s.Carries t) : parse rule s = parse rule (.text t) := by
  rw [parse_of_read (Source.read_of_carries carries), parse_of_read (s := .text t) rfl]

theorem parse_of_brings_garbled (garbled : ∀ t, Utf8.encode t ≠ .ok bs) :
    ∃ f : Failure, f.stage? = some Failure.readingStage ∧
      ∀ s : Source, s.Brings bs → parse rule s = .error f := by
  obtain ⟨fault, refused⟩ := Source.read_of_isGarbled ⟨bs, rfl, garbled⟩
  refine ⟨.invalidUtf8 fault, rfl, fun s brings => parse_of_read_error ?_⟩
  rw [Source.read_of_brings brings]
  exact refused

end Document

/-! ### Routes out -/

namespace Target

variable {t : Text} {bs : Octets}

theorem write_octetStream (encoded : Utf8.encode t = .ok bs) (written : Octets) :
    (octetStream written).write t = (octetStream (written ++ bs), none) := by
  simp only [write, encoded]

/-- A text with octets leaves a file with just these. -/
theorem exists_write_path_eq (encoded : Utf8.encode t = .ok bs) {files : Files} {p : Text}
    (opens : (path files p).opened?.isSome = true) :
    ∃ files', (path files p).write t = (path files' p, none) ∧ files'.Holds p bs := by
  rw [opened?] at opens
  split at opens
  next place sound opened =>
    refine ⟨files.insert place bs, ?_, Files.holds_insert (Path.fault?_shown.mp sound) opened⟩
    simp only [write, sound, opened, encoded]
  · cases opens

end Target

namespace Document

section
variable [Json.Machine]

/-- A text that has been rendered, where it goes: the text itself to a text stream, and the same
octets to a stream of octets and into a file. -/
structure Written (l : Json.Layout) (d : Document) (t : Text) (bs : Octets) : Prop where
  decoded : Utf8.decode bs = .ok t
  textStream : ∀ written, d.renderTo l (.textStream written) = (.textStream (written ++ t), none)
  octetStream : ∀ written,
    d.renderTo l (.octetStream written) = (.octetStream (written ++ bs), none)
  path : ∀ files p, (Target.path files p).opened?.isSome = true →
    ∃ files', d.renderTo l (.path files p) = (.path files' p, none) ∧ files'.Holds p bs

theorem exists_written {l : Json.Layout} {d : Document} {t : Text}
    (rendered : d.render l = .ok t) (clean : ∀ i, .surrogate i ∉ t) :
    ∃ bs, d.Written l t bs := by
  obtain ⟨bs, encoded⟩ := Utf8.exists_encode_eq_ok_iff.mpr clean
  have goes (target : Target) : d.renderTo l target = target.write t := by
    rw [renderTo, rendered]
  refine ⟨bs, Utf8.decode_eq_ok_iff.mpr encoded, fun written => goes _, fun written => ?_,
    fun files p opens => ?_⟩
  · rw [goes, Target.write_octetStream encoded]
  · rw [goes]
    exact Target.exists_write_path_eq encoded opens

/-- All routes agree. A text is parsed alike by each route, octets that are no UTF-8 are refused
alike, and what is rendered without surrogates is the same by each route out and when it is read
again. -/
theorem routes_agree (rule : RootRule) :
    (∀ (t : Text) (s : Source), s.Carries t → parse rule s = parse rule (.text t)) ∧
    (∀ bs : Octets, (∀ t, Utf8.encode t ≠ .ok bs) →
      ∃ f : Failure, f.stage? = some Failure.readingStage ∧
        ∀ s : Source, s.Brings bs → parse rule s = .error f) ∧
    ∀ (l : Json.Layout) (d : Document) (t : Text), d.render l = .ok t →
      (∀ i, .surrogate i ∉ t) → ∃ bs, d.Written l t bs ∧
        ∀ s : Source, s = .textStream t ∨ s.Brings bs → parse rule s = parse rule (.text t) := by
  refine ⟨fun t s => parse_of_carries, fun bs => parse_of_brings_garbled,
    fun l d t rendered clean => ?_⟩
  obtain ⟨bs, written⟩ := exists_written rendered clean
  refine ⟨bs, written, fun s back => parse_of_carries ?_⟩
  rcases back with rfl | brings
  · exact .textStream
  · exact .octets (Utf8.decode_eq_ok_iff.mp written.decoded) brings

end

/-- A file with the octets of a text that is accepted. -/
def accentedFiles : Files := [([Text.ofString "in.json"], .file accentedOctets)]

theorem holds_accentedFiles : accentedFiles.Holds "./in.json" accentedOctets where
  sound := by decide
  found := ⟨[Text.ofString "in.json"], rfl, rfl, rfl⟩

section
attribute [local instance] Json.Machine.roomy

theorem routes_agree_accented :
    (Source.path accentedFiles "./in.json").Carries accentedText ∧
      parse {} (.path accentedFiles "./in.json") = .ok (.ofMembers accented) ∧
      (∀ t, Utf8.encode t ≠ .ok [0xFF]) ∧
      (∃ f : Failure, f.stage? = some Failure.readingStage ∧
        parse {} (.octetStream [0xFF]) = .error f) ∧
      ∃ t, (ofMembers accented).render {} = .ok t ∧ (∀ i, .surrogate i ∉ t) ∧
        ∃ bs, (ofMembers accented).Written {} t bs ∧
          parse {} (.octetStream bs) = parse {} (.text t) := by
  obtain ⟨alike, refused, written⟩ := routes_agree {}
  have spelled : Utf8.encode accentedText = .ok accentedOctets := rfl
  have carries : (Source.path accentedFiles "./in.json").Carries accentedText :=
    .octets spelled (.path holds_accentedFiles)
  have garbled (t : Text) : Utf8.encode t ≠ .ok [0xFF] := by
    rw [Ne, ← Utf8.decode_eq_ok_iff]
    exact nofun
  obtain ⟨f, stage, failed⟩ := refused [0xFF] garbled
  let t := Json.valueText {} 0 (ofMembers accented).encode
  have rendered : (ofMembers accented).render {} = .ok t := rfl
  have encoded : Utf8.encode t = .ok ((Utf8.encode t).toOption.getD []) := by decide +kernel
  have clean := Utf8.exists_encode_eq_ok_iff.mp ⟨_, encoded⟩
  obtain ⟨bs, goes, back⟩ := written {} (ofMembers accented) t rendered clean
  refine ⟨carries, ?_, garbled, ⟨f, stage, failed _ .octetStream⟩,
    t, rendered, clean, bs, goes, back _ (.inr .octetStream)⟩
  rw [alike accentedText _ carries, ← alike accentedText _ (.octets spelled .octets)]
  exact parse_accentedOctets

end

end Document

end RawLift
