import ShellLine.Proofs.Program.Lines
import ShellLine.Proofs.Token.Cutting

/-! # Lines of blanks and lines of white space

A run passes over a line of white space, and a line of blanks has no token but its end.
White space is more than the four blanks that separate tokens: a line of no-break spaces
is one word, and still nothing is shown of it. Every other line is shown exactly if it
has a token, whatever the format is. -/

namespace ShellLine

/-- Something is shown of a line that is read alone. -/
def Session.Shows (s : Session) (strict : Bool) (line : Text) : Prop :=
  (Program.runLines s strict [line] true).report.output ≠ []

/-- The line has a token besides its end. -/
def HasToken (line : Text) : Prop := ∃ t ∈ lex line, t.kind ≠ .endOfInput

/-! ### Which lines have tokens -/

theorem Text.isWhiteSpace_of_isBlank {c : Char} (h : isBlank c = true) :
    Text.isWhiteSpace c = true := by
  simp only [isBlank, Bool.or_eq_true, beq_iff_eq] at h
  rcases h with ((rfl | rfl) | rfl) | rfl <;> decide

theorem hasToken_iff {line : Text} : HasToken line ↔ ∃ c ∈ line, isBlank c = false := by
  have hcut := cut_lex line
  rw [HasToken]
  generalize lex line = ts at hcut ⊢
  cases hcut with
  | done blank =>
    constructor
    · intro h
      obtain ⟨t, ht, hk⟩ := h
      rw [List.mem_singleton.1 ht] at hk
      exact absurd rfl hk
    · intro h
      obtain ⟨c, hc, hsolid⟩ := h
      rw [List.all_eq_true.1 blank c hc] at hsolid
      cases hsolid
  | @token i gap l ts blank nonempty solid reads tail =>
    obtain ⟨c, text, htext⟩ := List.exists_cons_of_ne_nil nonempty
    rw [htext, startsSolid_cons] at solid
    have hc : c ∈ gap ++ (l.text ++ l.rest) := by
      rw [htext]
      simp
    exact ⟨fun _ => ⟨c, hc, solid⟩, fun _ => ⟨_, List.mem_cons_self .., l.kind_ne_end nonempty reads⟩⟩

/-! ### Which lines are shown -/

/-- In every format something is written for a line that is not passed over. -/
theorem Session.display_ne_nil (s : Session) (line : Text) :
    s.display line (parseWithDiagnostics line) ≠ [] := by
  obtain ⟨format, lookup, quote⟩ := s
  cases format with
  | tree => exact List.cons_ne_nil _ _
  | json => exact List.append_ne_nil_of_right_ne_nil _ (List.cons_ne_nil _ _)
  | tokens => exact List.append_ne_nil_of_right_ne_nil _ (List.cons_ne_nil _ _)
  | argv =>
    -- a line has at least one command, and each command has a line of its own
    have hcommands : ∃ c cs, (parseWithDiagnostics line).pipeline.commands = c :: cs := ⟨_, _, rfl⟩
    obtain ⟨c, cs, hcommands⟩ := hcommands
    rw [display, Pipeline.expand, hcommands, List.map_cons, List.mapIdx_cons]
    exact List.append_ne_nil_of_left_ne_nil
      (List.append_ne_nil_of_right_ne_nil _ (List.cons_ne_nil _ _)) _

theorem Session.shows_iff (s : Session) (strict : Bool) (line : Text) :
    s.Shows strict line ↔ ∃ c ∈ line, Text.isWhiteSpace c = false := by
  have houtput : (Program.runLines s strict [line] true).report.output = (s.report line).output := by
    rw [Program.report_runLines, reportAll, Report.output_concat, List.map_singleton,
      List.flatMap_singleton]
  rw [Shows, houtput, output_report]
  by_cases htrim : Text.trim line = []
  · rw [if_pos htrim]
    have hwhite : ∀ c ∈ line, Text.isWhiteSpace c = true :=
      List.all_eq_true.1 (Text.trim_eq_nil_iff.1 htrim)
    refine ⟨fun h => absurd rfl h, ?_⟩
    intro h
    obtain ⟨c, hc, hsolid⟩ := h
    rw [hwhite c hc] at hsolid
    cases hsolid
  · rw [if_neg htrim]
    have hsolid : ¬ Text.isWhite line = true := fun h => htrim (Text.trim_eq_nil_iff.2 h)
    refine ⟨fun _ => ?_, fun _ => s.display_ne_nil line⟩
    simpa [Text.isWhite] using hsolid

/-- A line is shown exactly if it has a token and does not consist of white space. So lines with
tokens are the lines that are shown, but for those of white space that is not all blank. -/
theorem shows_line (s : Session) (strict : Bool) (line : Text) :
    (s.Shows strict line ↔ HasToken line ∧ ∃ c ∈ line, Text.isWhiteSpace c = false) ∧
      ((s.Shows strict line ↔ HasToken line) ↔
        ¬ ((∀ c ∈ line, Text.isWhiteSpace c = true) ∧ ∃ c ∈ line, isBlank c = false)) := by
  have htoken : (∃ c ∈ line, Text.isWhiteSpace c = false) → HasToken line := by
    intro h
    obtain ⟨c, hc, hsolid⟩ := h
    refine hasToken_iff.2 ⟨c, hc, Bool.eq_false_iff.2 ?_⟩
    intro hblank
    rw [Text.isWhiteSpace_of_isBlank hblank] at hsolid
    cases hsolid
  have hwhite : (∀ c ∈ line, Text.isWhiteSpace c = true) ↔
      ¬ ∃ c ∈ line, Text.isWhiteSpace c = false := by simp
  rw [s.shows_iff strict line, hwhite, ← hasToken_iff]
  refine ⟨⟨fun h => ⟨htoken h, h⟩, fun h => h.2⟩, ?_⟩
  constructor
  · intro h hdropped
    exact hdropped.1 (h.2 hdropped.2)
  · intro h
    refine ⟨htoken, fun hline => ?_⟩
    exact Decidable.byContradiction fun hnone => h ⟨hnone, hline⟩

/-- A no-break space is a word, and still nothing is shown of a line that holds nothing else. -/
theorem not_shows_no_break_space :
    ¬ ((Session.mk .tokens Context.empty quoteArgument?).Shows false ['\u00a0'] ↔ HasToken ['\u00a0']) := by
  intro h
  have htoken : HasToken ['\u00a0'] :=
    ⟨⟨.word, ['\u00a0'], ⟨0, 2⟩⟩, by decide +kernel, nofun⟩
  exact h.2 htoken (by decide +kernel)

end ShellLine
