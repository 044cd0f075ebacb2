import ShellLine.Proofs.Pipeline.Placement
import ShellLine.Proofs.Token.Concatenation
import ShellLine.Proofs.Word.OpenQuotes
import ShellLine.Proofs.Word.Shifting

/-! # Pipelines on both sides of a pipe

Reading sends a pipe between two texts to two lists of commands in a row. The
first text must end outside quotes; then the tokens on both sides are those of the
texts alone, and the parser starts behind a pipe as it starts a line. All places in
the second text move by the first text and the pipe. Only reports of empty commands
are no part of this: a command that is empty alone is one of several here. -/

namespace ShellLine

/-! ### Trees further behind -/

namespace Element

def shift (n : Nat) : Element → Element
  | word w => word (w.shift n)
  | redirection r => redirection (r.shift n)

theorem span_shift (n : Nat) (e : Element) : (e.shift n).span = e.span.shift n := by
  cases e <;> rfl

theorem word?_shift (n : Nat) (e : Element) : (e.shift n).word? = e.word?.map (Word.shift n) := by
  cases e <;> rfl

theorem redirection?_shift (n : Nat) (e : Element) :
    (e.shift n).redirection? = e.redirection?.map (Redirection.shift n) := by
  cases e <;> rfl

end Element

namespace Recovery

def shift (n : Nat) : Recovery → Recovery
  | missingTarget op span => missingTarget op (span.shift n)
  | unusableDup source span => unusableDup source (span.shift n)
  | openWord raw d => openWord raw (d.shift n)
  | emptyCommand span => emptyCommand (span.shift n)

theorem diagnostic_shift (n : Nat) (r : Recovery) :
    (r.shift n).diagnostic = r.diagnostic.shift n := by
  cases r <;> rfl

theorem ofToken_shift (n : Nat) (t : Token) : ofToken (t.shift n) = (ofToken t).map (shift n) := by
  have hraw := diagnosticsOfRaw_shift t.text n t.span.start
  simp only [ofToken, Token.shift_text, Token.shift_span, Span.shift, hraw, List.map_map]
  rfl

theorem ofBareOperator_shift (n : Nat) (op : Operator) (t : Token) :
    ofBareOperator op (t.shift n) = (ofBareOperator op t).map (shift n) := by
  cases op with
  | numbered fd form =>
    cases form with
    | dup source => cases source <;> rfl
    | _ => rfl
  | _ => rfl

end Recovery

theorem Word.ofToken_shift (n : Nat) (t : Token) : ofToken (t.shift n) = (ofToken t).shift n := by
  have hraw := partsOfRaw_shift t.text n t.span.start
  simp only [ofToken, shift, Token.shift_text, Token.shift_span, Span.shift, hraw]

theorem Word.placeholder_shift (n : Nat) (s : Span) :
    (placeholder s.stop).shift n = placeholder (s.shift n).stop := rfl

theorem Redirection.ofToken_shift (n : Nat) (op : Operator) (t : Token) (target : Word) :
    ofToken op (t.shift n) (target.shift n) = (ofToken op t target).shift n := by
  have hcover := Span.shift_cover n t.span target.span
  simp only [ofToken, shift, Token.shift_span, Word.shift, hcover]

namespace Stage

def shift (n : Nat) (s : Stage) : Stage :=
  ⟨s.elements.map (Element.shift n), s.recoveries.map (Recovery.shift n), n + s.stop⟩

theorem cons_shift (n : Nat) (e : Element) (rs : List Recovery) (s : Stage) :
    (s.shift n).cons (e.shift n) (rs.map (Recovery.shift n)) = (s.cons e rs).shift n := by
  simp only [shift, cons, List.map_cons, List.map_append]

theorem foldl_cover_shift (n : Nat) (es : List Element) (s : Span) :
    (es.map (Element.shift n)).foldl (fun s e => s.cover e.span) (s.shift n) =
      (es.foldl (fun s e => s.cover e.span) s).shift n := by
  induction es generalizing s with
  | nil => rfl
  | cons e es ih => rw [List.map_cons, List.foldl_cons, List.foldl_cons, Element.span_shift,
      ← Span.shift_cover, ih]

theorem span_shift (n : Nat) (s : Stage) : (s.shift n).span = s.span.shift n := by
  obtain ⟨es, rs, stop⟩ := s
  cases es with
  | nil => rfl
  | cons e es =>
    have hfold := foldl_cover_shift n es e.span
    rw [← Element.span_shift] at hfold
    exact hfold

theorem command_shift (n : Nat) (s : Stage) : (s.shift n).command = s.command.shift n := by
  have hwords : (s.shift n).elements.filterMap Element.word? =
      (s.elements.filterMap Element.word?).map (Word.shift n) := by
    simp only [shift, List.filterMap_map, List.map_filterMap, Function.comp_def, Element.word?_shift]
  have hredirections : (s.shift n).elements.filterMap Element.redirection? =
      (s.elements.filterMap Element.redirection?).map (Redirection.shift n) := by
    simp only [shift, List.filterMap_map, List.map_filterMap, Function.comp_def,
      Element.redirection?_shift]
  rw [command, hwords, hredirections, span_shift]
  rfl

end Stage

theorem consStage_shift (n : Nat) (e : Element) (rs : List Recovery) (s : Stage) (ss : List Stage) :
    consStage (e.shift n) (rs.map (Recovery.shift n)) (s.shift n, ss.map (Stage.shift n)) =
      ((consStage e rs (s, ss)).1.shift n, (consStage e rs (s, ss)).2.map (Stage.shift n)) := by
  rw [consStage, Stage.cons_shift]
  rfl

/-- The parser reads tokens further behind as it reads them in place. -/
theorem stagesOfTokens_shift (n : Nat) {ts : List Token} (hend : ∃ e ∈ ts, e.kind = .endOfInput) :
    stagesOfTokens (ts.map (Token.shift n)) =
      ((stagesOfTokens ts).1.shift n, (stagesOfTokens ts).2.map (Stage.shift n)) := by
  -- the end stands behind a token of another kind
  have hbehind {t : Token} {us : List Token} (h : ∃ e ∈ t :: us, e.kind = .endOfInput)
      (hk : t.kind ≠ .endOfInput) : ∃ e ∈ us, e.kind = .endOfInput := by
    obtain ⟨e, he, hkind⟩ := h
    rcases List.mem_cons.1 he with rfl | he
    · exact absurd hkind hk
    · exact ⟨e, he, hkind⟩
  fun_induction stagesOfTokens ts with
  | case1 =>
    obtain ⟨e, he, _⟩ := hend
    cases he
  | case2 t ts hk =>
    rw [List.map_cons, stagesOfTokens_end (t := t.shift n) hk]
    rfl
  | case3 t ts hk s ss hss ih =>
    have htail := ih (hbehind hend (by simp [hk]))
    rw [hss] at htail
    rw [List.map_cons, stagesOfTokens_pipe (t := t.shift n) hk, htail]
    rfl
  | case4 t ts hk ih =>
    have htail := ih (hbehind hend (by simp [hk]))
    rw [List.map_cons, stagesOfTokens_word (t := t.shift n) hk, htail, Word.ofToken_shift,
      Recovery.ofToken_shift]
    exact consStage_shift n (.word (Word.ofToken t)) (Recovery.ofToken t) _ _
  | case5 t op hk w rest htake ih =>
    obtain ⟨htakes, hw⟩ := Bool.and_eq_true_iff.1 htake
    have hkw : w.kind = .word := eq_of_beq hw
    have htail := ih (hbehind (hbehind hend (by simp [hk])) (by simp [hkw]))
    rw [List.map_cons, List.map_cons,
      stagesOfTokens_file (t := t.shift n) (w := w.shift n) hk htakes hw, htail,
      Word.ofToken_shift, Redirection.ofToken_shift, Recovery.ofToken_shift]
    exact consStage_shift n (.redirection (Redirection.ofToken op t (Word.ofToken w)))
      (Recovery.ofToken w) _ _
  | case6 t op hk w rest htake ih =>
    have htail := ih (hbehind hend (by simp [hk]))
    have halone := alone_cons (w := w.shift n) (Bool.eq_false_iff.2 htake)
    have hredirection := Redirection.ofToken_shift n op t (Word.placeholder t.span.stop)
    rw [List.map_cons] at htail
    rw [List.map_cons, List.map_cons, stagesOfTokens_alone (t := t.shift n) hk _ (halone _), htail,
      Recovery.ofBareOperator_shift, Token.shift_span, ← Word.placeholder_shift, hredirection]
    exact consStage_shift n
      (.redirection (Redirection.ofToken op t (Word.placeholder t.span.stop))) _ _ _
  | case7 t op hk ih =>
    obtain ⟨e, he, _⟩ := hbehind hend (by simp [hk])
    cases he

/-! ### A pipe in place of the end -/

/-- Where a pipe stands in place of the end of the line, the stages go on with those behind it. -/
theorem stagesOfTokens_append_pipe {front : List Token} {p e : Token} (us : List Token)
    (hfront : ∀ t ∈ front, t.kind ≠ .endOfInput) (hp : p.kind = .pipe) (he : e.kind = .endOfInput)
    (hstart : p.span.start = e.span.start) :
    stagesOfTokens (front ++ p :: us) =
      ((stagesOfTokens (front ++ [e])).1,
        (stagesOfTokens (front ++ [e])).2 ++ (stagesOfTokens us).1 :: (stagesOfTokens us).2) := by
  have hpw : p.isWord = false := by simp [Token.isWord, hp]
  have hew : e.isWord = false := by simp [Token.isWord, he]
  induction front using stagesOfTokens.induct with
  | case1 =>
    rw [List.nil_append, List.nil_append, stagesOfTokens_pipe hp, stagesOfTokens_end he, hstart]
    rfl
  | case2 t ts hk => exact absurd hk (hfront t (List.mem_cons_self ..))
  | case3 t ts hk _ _ _ ih =>
    have htail := ih fun u hu => hfront u (List.mem_cons_of_mem _ hu)
    rw [List.cons_append, List.cons_append, stagesOfTokens_pipe hk, stagesOfTokens_pipe hk, htail]
    rfl
  | case4 t ts hk ih =>
    have htail := ih fun u hu => hfront u (List.mem_cons_of_mem _ hu)
    rw [List.cons_append, List.cons_append, stagesOfTokens_word hk, stagesOfTokens_word hk, htail]
    rfl
  | case5 t op hk w rest htake ih =>
    obtain ⟨htakes, hw⟩ := Bool.and_eq_true_iff.1 htake
    have htail := ih fun u hu => hfront u (List.mem_cons_of_mem _ (List.mem_cons_of_mem _ hu))
    rw [List.cons_append, List.cons_append, List.cons_append, List.cons_append,
      stagesOfTokens_file hk htakes hw, stagesOfTokens_file hk htakes hw, htail]
    rfl
  | case6 t op hk w rest htake ih =>
    have halone := alone_cons (Bool.eq_false_iff.2 htake)
    have htail := ih fun u hu => hfront u (List.mem_cons_of_mem _ hu)
    simp only [List.cons_append] at htail ⊢
    rw [stagesOfTokens_alone hk _ (halone _), stagesOfTokens_alone hk _ (halone _), htail]
    rfl
  | case7 t op hk ih =>
    have htail := ih fun u hu => absurd hu List.not_mem_nil
    simp only [List.cons_append, List.nil_append] at htail ⊢
    rw [stagesOfTokens_alone hk _ (alone_stop hpw op us),
      stagesOfTokens_alone hk _ (alone_stop hew op []), htail]
    rfl

theorem exists_end_lex (s : Text) : ∃ e ∈ lex s, e.kind = .endOfInput := by
  obtain ⟨front, hlex, _⟩ := (cut_lex s).ends_once
  rw [hlex]
  exact ⟨_, List.mem_append_right _ (List.mem_singleton_self _), rfl⟩

theorem stagesOfLine_append_pipe {a : Text} (closed : Quoting.bare.steps a = .bare) (b : Text) :
    stagesOfLine (a ++ '|' :: b) =
      stagesOfLine a ++ (stagesOfLine b).map (Stage.shift (Text.byteSize a + 1)) := by
  obtain ⟨front, hfront, ha, hab⟩ := exists_lex_append_pipe closed b
  have hshift := stagesOfTokens_shift (Text.byteSize a + 1) (exists_end_lex b)
  have happend := @stagesOfTokens_append_pipe front
    ((⟨.pipe, ['|'], b⟩ : Lexeme).tokenAt (Text.byteSize a))
    ⟨.endOfInput, [], Span.empty (Text.byteSize a)⟩
    ((lex b).map (Token.shift (Text.byteSize a + 1))) hfront rfl rfl rfl
  simp only [stagesOfLine, ha, hab, happend, hshift]
  rfl

/-! ### Reports of empty commands -/

/-- Whether something is reported but that a command is empty. -/
def Diagnostic.isLocal (d : Diagnostic) : Bool := d.kind != .emptyCommand

theorem Recovery.isLocal_of_mem_ofToken {t : Token} {r : Recovery} (h : r ∈ ofToken t) :
    r.diagnostic.isLocal = true := by
  obtain ⟨d, hd, rfl⟩ := List.mem_map.1 h
  have hkind : d.kind ≠ .emptyCommand := by
    rcases Segment.kind_of_mem_allDiagnostics hd with hbrace | hquote
    · simp [hbrace]
    · intro hempty
      rw [hempty] at hquote
      cases hquote
  exact bne_iff_ne.2 hkind

theorem Recovery.isLocal_of_mem_ofBareOperator {op : Operator} {t : Token} {r : Recovery}
    (h : r ∈ ofBareOperator op t) : r.diagnostic.isLocal = true := by
  have hkind : r.diagnostic.kind ≠ .emptyCommand := by
    intro hempty
    have hmem := kind_of_mem_ofBareOperator h
    rw [hempty] at hmem
    revert hmem
    decide
  exact bne_iff_ne.2 hkind

theorem Place.isLocal_of_mem {p : Place} {r : Recovery} (h : r ∈ p.recoveries) :
    r.diagnostic.isLocal = true := by
  unfold recoveries at h
  split at h
  · split at h
    · cases h
    · exact Recovery.isLocal_of_mem_ofToken h
  · split at h
    · exact Recovery.isLocal_of_mem_ofToken h
    · exact Recovery.isLocal_of_mem_ofBareOperator h
  · cases h

/-- What is repaired within a stage is never that its command is empty. -/
theorem isLocal_of_mem_stagesOfLine {s : Text} {r : Recovery}
    (h : r ∈ (stagesOfLine s).flatMap Stage.recoveries) : r.diagnostic.isLocal = true := by
  obtain ⟨cs, hcs⟩ := exists_clauses_lex s
  rw [stagesOfLine_eq hcs] at h
  obtain ⟨stage, hstage, hr⟩ := List.mem_flatMap.1 h
  obtain ⟨c, _, rfl⟩ := List.mem_map.1 hstage
  obtain ⟨p, _, hp⟩ := List.mem_flatMap.1 hr
  exact p.isLocal_of_mem hp

/-- Without those of empty commands, the diagnostics of a line are those of its stages. -/
theorem filter_isLocal_diagnostics (s : Text) :
    (parseWithDiagnostics s).diagnostics.filter Diagnostic.isLocal =
      ((stagesOfLine s).flatMap Stage.recoveries).map Recovery.diagnostic := by
  have hstages : (((stagesOfLine s).flatMap Stage.recoveries).map Recovery.diagnostic).filter
      Diagnostic.isLocal = ((stagesOfLine s).flatMap Stage.recoveries).map Recovery.diagnostic := by
    refine List.filter_eq_self.2 ?_
    intro d hd
    obtain ⟨r, hr, rfl⟩ := List.mem_map.1 hd
    exact isLocal_of_mem_stagesOfLine hr
  have hempty : ((emptyCommands (parse s).commands).map Recovery.diagnostic).filter
      Diagnostic.isLocal = [] := by
    refine List.filter_eq_nil_iff.2 ?_
    intro d hd
    obtain ⟨r, hr, rfl⟩ := List.mem_map.1 hd
    unfold emptyCommands at hr
    split at hr
    · obtain ⟨c, _, rfl⟩ := List.mem_map.1 hr
      simp [Recovery.diagnostic, Diagnostic.isLocal]
    · cases hr
  have hdiagnostics : (parseWithDiagnostics s).diagnostics =
      ((stagesOfLine s).flatMap Stage.recoveries).map Recovery.diagnostic ++
        (emptyCommands (parse s).commands).map Recovery.diagnostic := List.map_append
  rw [hdiagnostics, List.filter_append, hstages, hempty, List.append_nil]

/-! ### Lines -/

/-- If the first text leaves no quote and no backslash open, a pipe sends two texts to the commands
of both, and what is reported within commands to what is reported within the commands of both. -/
theorem parse_append_pipe {a : Text} (closed : Flags.rest.steps a = .rest) (b : Text) :
    (parse (a ++ '|' :: b)).commands =
        (parse a).commands ++ (parse b).commands.map (Command.shift (Text.byteSize a + 1)) ∧
      (parseWithDiagnostics (a ++ '|' :: b)).diagnostics.filter Diagnostic.isLocal =
        (parseWithDiagnostics a).diagnostics.filter Diagnostic.isLocal ++
          ((parseWithDiagnostics b).diagnostics.filter Diagnostic.isLocal).map
            (Diagnostic.shift (Text.byteSize a + 1)) := by
  have hstages := stagesOfLine_append_pipe ((Quoting.steps_bare_iff a).2 closed) b
  have hcommands (s : Text) : (parse s).commands = (stagesOfLine s).map Stage.command := rfl
  constructor
  · rw [hcommands, hcommands, hcommands, hstages, List.map_append, List.map_map, List.map_map]
    simp only [Function.comp_def, Stage.command_shift]
  · have hshift (n : Nat) (s : Stage) : (s.shift n).recoveries.map Recovery.diagnostic =
        (s.recoveries.map Recovery.diagnostic).map (Diagnostic.shift n) := by
      simp only [Stage.shift, List.map_map, Function.comp_def, Recovery.diagnostic_shift]
    simp only [filter_isLocal_diagnostics, hstages, List.flatMap_append, List.map_append,
      List.map_flatMap, List.flatMap_map, hshift]

/-- Behind `cat <`, which lacks a file, and a pipe, `wc` is read as a line of its own. -/
theorem parse_append_pipe_missing_target :
    Flags.rest.steps "cat <".toList = .rest ∧
      (parse ("cat <".toList ++ '|' :: "wc".toList)).commands =
        (parse "cat <".toList).commands ++ (parse "wc".toList).commands.map (Command.shift 6) ∧
      (parseWithDiagnostics ("cat <".toList ++ '|' :: "wc".toList)).diagnostics.filter
          Diagnostic.isLocal =
        (parseWithDiagnostics "cat <".toList).diagnostics.filter Diagnostic.isLocal ++
          ((parseWithDiagnostics "wc".toList).diagnostics.filter Diagnostic.isLocal).map
            (Diagnostic.shift 6) := by
  have hclosed : Flags.rest.steps "cat <".toList = .rest := by decide
  exact ⟨hclosed, parse_append_pipe hclosed "wc".toList⟩

end ShellLine
