import RawLift.Target

/-!
What a failed render leaves behind. Streams and unusable paths are as they were. A file is opened
before the octets are made, so a text that holds a surrogate leaves an empty file, whatever was in
it or whether it was there at all.
-/

namespace RawLift

namespace Files

/-- Writing to a file changes nothing if that is what the file holds, and only then. -/
theorem insert_eq_self_iff {files : Files} {place : Place} {content : Utf8.Octets} :
    files.insert place content = files ↔ files.lookup place = some (.file content) := by
  induction files with
  | nil => simp [insert]
  | cons entry files ih =>
    obtain ⟨p, e⟩ := entry
    by_cases here : p = place
    · subst here
      simp [insert, eq_comm]
    · have other : (place == p) = false := beq_eq_false_iff_ne.mpr (Ne.symm here)
      rw [insert, if_neg here, List.lookup_cons, other, List.cons.injEq, ih]
      simp

end Files

namespace Target

/-- The files that a write opens a file among, and the place that it opens. -/
def opened? : Target → Option (Files × Place)
  | path files p =>
    match Path.fault? (Path.shown p), files.openPlace (Path.shown p) (Path.names p) with
    | none, .ok place => some (files, place)
    | _, _ => none
  | _ => none

/-- All that a failed write can do to its target is to empty the file that it has opened. -/
theorem write_failed {t : Text} {target after : Target} {f : Failure}
    (failed : target.write t = (after, some f)) :
    (after = target ∧ (target.opened? = none ∨ ∀ fault, f ≠ .surrogates fault)) ∨
      ∃ files p place fault, target = path files p ∧ target.opened? = some (files, place) ∧
        f = .surrogates fault ∧ after = path (files.insert place []) p := by
  revert failed
  fun_cases write t target with
  | case1 | case2 | case6 => simp
  | case3 written fault =>
    rintro ⟨⟩
    exact .inl ⟨rfl, .inl rfl⟩
  | case4 files p fault faulty =>
    rintro ⟨⟩
    refine .inl ⟨rfl, .inl ?_⟩
    simp [opened?, faulty]
  | case5 files p fault located sound =>
    rintro ⟨⟩
    refine .inl ⟨rfl, .inl ?_⟩
    simp [opened?, sound, located]
  | case7 files p place located sound fault encoded =>
    rintro ⟨⟩
    refine .inr ⟨files, p, place, fault, rfl, ?_, rfl, rfl⟩
    simp [opened?, sound, located]
  | case8 | case9 =>
    rintro ⟨⟩
    exact .inl ⟨rfl, .inl rfl⟩

theorem write_eq_target_iff {t : Text} {target after : Target} {f : Failure}
    (failed : target.write t = (after, some f)) :
    after = target ↔ ∀ files place, target.opened? = some (files, place) →
      (∃ fault, f = .surrogates fault) → files.lookup place = some (.file []) := by
  rcases write_failed failed with ⟨same, safe⟩ | ⟨files, p, place, fault, rfl, opened, rfl, rfl⟩
  · refine iff_of_true same ?_
    rintro files place opened ⟨fault, surrogates⟩
    rcases safe with closed | other
    · simp [closed] at opened
    · exact absurd surrogates (other fault)
  · rw [opened, path.injEq, Files.insert_eq_self_iff]
    constructor
    · rintro ⟨empty, -⟩ _ _ ⟨⟩ -
      exact empty
    · intro empty
      exact ⟨empty files place rfl ⟨fault, rfl⟩, rfl⟩

end Target

namespace Document

section
variable [Json.Machine]

/-- A document that cannot be laid out never gets as far as its target. -/
theorem renderTo_of_render_error {l : Json.Layout} {d : Document} {f : Failure}
    (refused : d.render l = .error f) (target : Target) :
    d.renderTo l target = (target, some f) := by
  rw [renderTo, refused]

theorem render_ne_surrogates (l : Json.Layout) (d : Document) (fault : Utf8.EncodeError) :
    d.render l ≠ .error (.surrogates fault) := by
  rw [render]
  split <;> simp

/-- A failed render leaves its target as it was unless it has opened a file that was not empty or
not there, for a text that UTF-8 has no octets for. -/
theorem renderTo_eq_target_iff {l : Json.Layout} {d : Document} {target after : Target}
    {f : Failure} (failed : d.renderTo l target = (after, some f)) :
    after = target ↔ ∀ files place, target.opened? = some (files, place) →
      (∃ fault, f = .surrogates fault) → files.lookup place = some (.file []) := by
  cases rendered : d.render l with
  | ok t =>
    rw [renderTo, rendered] at failed
    exact Target.write_eq_target_iff failed
  | error refusal =>
    rw [renderTo_of_render_error rendered] at failed
    obtain ⟨rfl, ⟨⟩⟩ := Prod.mk.inj failed
    refine iff_of_true rfl ?_
    rintro files place - ⟨fault, rfl⟩
    exact absurd rendered (render_ne_surrogates l d fault)

end

section
attribute [local instance] Json.Machine.roomy

/-- Half of a surrogate pair, as a JSON escape can name one. -/
def halfPair : Document := { blocks := some [.verbatim (.string [.surrogate 0])] }

/-- Where there was no file there is an empty one after the failed render. -/
theorem renderTo_eq_target_iff_absent :
    ∃ after f, halfPair.renderTo {} (.path [] "o.json") = (after, some f) ∧
      (after = .path [] "o.json" ↔
        ∀ files place, (Target.path [] "o.json").opened? = some (files, place) →
          (∃ fault, f = .surrogates fault) → files.lookup place = some (.file [])) := by
  have failed : halfPair.renderTo {} (.path [] "o.json") =
      (.path [([Text.ofString "o.json"], .file [])] "o.json",
        some (.surrogates ⟨0, 22, 1⟩)) := rfl
  exact ⟨_, _, failed, renderTo_eq_target_iff failed⟩

/-- A file with something in it, open to be written. -/
def draft : Target := .path [([Text.ofString "o.json"], .file [0x6F, 0x6C, 0x64])] "o.json"

/-- The render fails, and what the file held is lost. -/
theorem renderTo_draft_ne_draft :
    ∃ after f, halfPair.renderTo {} draft = (after, some f) ∧ after ≠ draft := by
  refine ⟨.path [([Text.ofString "o.json"], .file [])] "o.json", _, rfl, ?_⟩
  intro same
  injection same with files
  simp at files

end

end Document

end RawLift
