import RawLift.Proofs.CommandLine.Unclassified

/-!
Settings that have a value for each option that takes one, a log file apart. Arguments in the newer
manner lead to no others, nor do those in the older manner if no option has `--` attached. No
failure without a class is about an option that is set to nothing where the settings are so.
-/

namespace RawLift.CommandLine

/-! ### What is attached -/

section
variable {t name value : Text} {flag : Flag} {attached : Attached}

theorem suffix_of_splitSign (split : splitSign t = (name, some value)) : value <:+ t := by
  induction t generalizing name with
  | nil => cases split
  | cons p rest ih =>
    rw [splitSign] at split
    split at split
    · cases split
      exact List.suffix_cons p value
    · obtain ⟨-, later⟩ := Prod.mk.inj split
      exact (ih (Prod.ext rfl later)).trans (List.suffix_cons p rest)

theorem suffix_of_mem_candidates (mem : (name, flag, some attached) ∈ candidates t) :
    attached.value <:+ t := by
  rw [candidates] at mem
  split at mem
  · obtain ⟨n, -, same⟩ := List.mem_map.mp mem
    simp only [Prod.mk.injEq, Option.map_eq_some_iff] at same
    obtain ⟨-, -, value, signed, rfl⟩ := same
    exact suffix_of_splitSign (Prod.ext rfl signed)
  · obtain ⟨n, -, same⟩ := List.mem_filterMap.mp mem
    split at same
    · cases same
      exact List.drop_suffix 2 t
    · split at same <;> cases same

theorem suffix_of_readUnlisted (read : readUnlisted t = .ok (.option flag (some attached))) :
    attached.value <:+ t := by
  revert read
  fun_cases readUnlisted t with
  | case1 name flag' attached' only =>
    rintro ⟨⟩
    exact suffix_of_mem_candidates (by rw [only]; exact List.mem_singleton_self _)
  | _ => rintro ⟨⟩

/-- What is attached to an option is the end of the argument. -/
theorem suffix_of_readArgument (read : readArgument t = .ok (.option flag (some attached))) :
    attached.value <:+ t := by
  revert read
  fun_cases readArgument t with
  | case4 =>
    rintro ⟨⟩
    exact suffix_of_splitSign ‹_›
  | case5 | case6 => exact suffix_of_readUnlisted
  | _ => rintro ⟨⟩

end

/-- An option with `--` attached. -/
def Word.Blanks : Word → Prop
  | .argument _ (.option _ (some attached)) => attached.value = CommandLine.separator
  | _ => False

theorem exists_suffix_of_blanks {arguments : List Text} {words : List Word} {word : Word}
    (read : readWords arguments = .ok words) (mem : word ∈ words) (blanks : word.Blanks) :
    ∃ t ∈ arguments, separator <:+ t ∧ t ≠ separator := by
  induction arguments generalizing words with
  | nil =>
    cases read
    cases mem
  | cons t rest ih =>
    rw [readWords] at read
    split at read
    · cases read
      rcases List.mem_cons.mp mem with rfl | mem
      · exact blanks.elim
      · obtain ⟨operand, -, rfl⟩ := List.mem_map.mp mem
        exact blanks.elim
    next other =>
      obtain ⟨reading, first, read⟩ := Json.bind_eq_ok read
      obtain ⟨others, later, read⟩ := Json.bind_eq_ok read
      cases read
      rcases List.mem_cons.mp mem with rfl | mem
      · cases reading with
        | option flag attached? =>
          cases attached? with
          | some attached =>
            have ends : separator = attached.value := Eq.symm blanks
            exact ⟨t, List.mem_cons_self, ends ▸ suffix_of_readArgument first, other⟩
          | none => exact blanks.elim
        | _ => exact blanks.elim
      · obtain ⟨t', inside, ends⟩ := ih later mem
        exact ⟨t', List.mem_cons_of_mem t inside, ends⟩

/-! ### Settings -/

/-- No option is set to nothing. Not to have a log file is a setting of its own. -/
structure Settings.Filled (s : Settings) : Prop where
  output : s.output ≠ none
  format : s.format ≠ none
  indent : s.indent ≠ none
  logLevel : s.logLevel ≠ none

namespace Settings.Filled

variable {s s' : Settings} {flag : Flag} {value : Text}

theorem default : Filled {} := by constructor <;> simp

theorem set (filled : s.Filled) (taken : s.set flag value = .ok s') : s'.Filled := by
  revert taken
  fun_cases Settings.set s flag value with
  | case4 | case6 => rintro ⟨⟩
  | _ =>
    rintro ⟨⟩
    constructor <;> simp [filled.output, filled.format, filled.indent, filled.logLevel]

theorem turn (filled : s.Filled) (taken : s.turn flag = .ok s') : s'.Filled := by
  cases flag <;> cases taken <;> exact ⟨filled.1, filled.2, filled.3, filled.4⟩

end Settings.Filled

theorem Settings.Filled.attach {m : Manner} {s s' : Settings} {flag : Flag} {value : Text}
    (filled : s.Filled) (whole : m = .older → value ≠ separator)
    (taken : s.attach m flag value = .ok s') : s'.Filled := by
  rw [Settings.attach, if_neg fun ⟨older, blank⟩ => whole older blank] at taken
  exact filled.set taken

/-- No word empties an option but one that has `--` attached, and that in the older manner alone. -/
theorem filled_of_takeWords {m : Manner} {p p' : Progress} {words : List Word}
    (whole : m = .older → ∀ word ∈ words, ¬ word.Blanks) (filled : p.settings.Filled)
    (taken : takeWords m p words = .ok p') : p'.settings.Filled := by
  -- The cases are in the order of the equations: the end and separators, what is no option, options
  -- with something attached, and options with their value in the next word or without one.
  fun_induction takeWords m p words with
  | case1 | case2 | case3 | case4 | case7 =>
    cases taken
    exact filled
  | case5 p t rest ih | case6 p t rest input given ih | case8 p t none rest more ih =>
    exact ih (fun older word mem => whole older word (List.mem_cons_of_mem _ mem)) filled taken
  | case9 p t flag attached rest takes ih =>
    obtain ⟨s, attach, taken⟩ := Json.bind_eq_ok taken
    refine ih s (fun older word mem => whole older word (List.mem_cons_of_mem _ mem)) ?_ taken
    exact filled.attach (fun older => whole older _ List.mem_cons_self) attach
  | case15 p t flag takes value rest ih =>
    obtain ⟨s, set, taken⟩ := Json.bind_eq_ok taken
    refine ih s (fun older word mem => whole older word ?_) (filled.set set) taken
    exact List.mem_cons_of_mem _ (List.mem_cons_of_mem _ mem)
  | case17 p t flag rest plain ih =>
    obtain ⟨s, turn, taken⟩ := Json.bind_eq_ok taken
    exact ih s (fun older word mem => whole older word (List.mem_cons_of_mem _ mem))
      (filled.turn turn) taken
  | _ => cases taken

/-- Arguments leave no option blank, unless one is read in the older manner with `--` attached. -/
theorem filled_of_parseArguments {m : Manner} {arguments : List Text} {s : Settings}
    (whole : m = .older → ∀ t ∈ arguments, separator <:+ t → t = separator)
    (parsed : parseArguments arguments m = .ok s) : s.Filled := by
  obtain ⟨words, read, parsed⟩ := Json.bind_eq_ok parsed
  obtain ⟨p, taken, parsed⟩ := Json.bind_eq_ok parsed
  have read : readWords arguments = .ok words := by
    cases given : readWords arguments <;> rw [given] at read <;> cases read
    rfl
  have filled : p.settings.Filled := by
    refine filled_of_takeWords (fun older word mem blanks => ?_) .default taken
    obtain ⟨t, inside, ends, other⟩ := exists_suffix_of_blanks read mem blanks
    exact other (whole older t inside ends)
  split at parsed <;> cases parsed
  exact ⟨filled.output, filled.format, filled.indent, filled.logLevel⟩

/-- Then no failure without a class is about an option that is set to nothing. -/
theorem Settings.Filled.leaks_ne [Json.Machine] {s : Settings} {w : Surroundings} {files : Files}
    {f : Failure} (filled : s.Filled) (leaks : s.Leaks w files f) :
    f ≠ .blankOutput ∧ ∀ fault, f ≠ .option fault := by
  cases leaks with
  | blankIndent options blank => exact absurd blank filled.indent
  | blankOutput builds parsed blank => exact absurd blank filled.output
  | _ => exact ⟨nofun, nofun⟩

end RawLift.CommandLine
