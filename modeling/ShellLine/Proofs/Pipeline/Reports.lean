import ShellLine.Proofs.Pipeline.Placement
import ShellLine.Proofs.Token.Slices

/-! # What is reported can be seen in the tree

Every diagnostic of a line can be found without the parser: from the commands and
the text of the line. A word is reported on as its text says, a redirection shows
by its target or by its own text what it lacks, and a command among several shows
that it is empty. Nothing else is reported, and in no other order. -/

namespace ShellLine

/-- What a copy without a number to copy lacks, told by the end of its text. -/
def dupReport (source : Text) (span : Span) : List Diagnostic :=
  match source.getLast? with
  | some c =>
    if c.isDigit then [⟨.invalidDupTarget, span⟩]
    else if c = '&' then [⟨.missingDupTarget, span⟩]
    else []
  | none => []

namespace Element

/-- What an element of the line `s` leaves open or lacks. -/
def reports (s : Text) : Element → List Diagnostic
  | word w => diagnosticsOfRaw (w.span.slice s) w.span.start
  | redirection r =>
    if r.op = .dup then
      match r.dupTarget with
      | some _ => []
      | none => dupReport (r.span.slice s) r.span
    else if r.target.span.isEmpty then [⟨.missingRedirectTarget, r.span⟩]
    else diagnosticsOfRaw (r.target.span.slice s) r.target.span.start

end Element

namespace Command

def reports (s : Text) (c : Command) : List Diagnostic := c.elements.flatMap (Element.reports s)

/-- What a command shows that is one of several. -/
def emptyReport (c : Command) : List Diagnostic :=
  if c.words = [] ∧ c.redirections = [] then [⟨.emptyCommand, c.span⟩] else []

end Command

/-- What the commands of the line `s` show, those that are empty behind all others. -/
def Pipeline.reports (s : Text) (p : Pipeline) : List Diagnostic :=
  p.commands.flatMap (Command.reports s) ++
    if 1 < p.commands.length then p.commands.flatMap Command.emptyReport else []

/-! ### Copies without a number -/

theorem Lexeme.numbered?_of_kind {s : Text} {fd : UInt32} {form : FdForm}
    (h : (read s).kind = .operator (.numbered fd form)) : numbered? s = some (read s) := by
  unfold read at h ⊢
  split at h
  case h_7 c s _ _ _ _ _ =>
    cases hn : numbered? (c :: s) with
    | none =>
      rw [hn] at h
      cases h
    | some l => rfl
  all_goals cases h

/-- A copy without a number to copy ends in a digit that is no help, or in its sign. -/
theorem Lexeme.getLast?_of_dup {s : Text} {l : Lexeme} {fd : UInt32} (h : numbered? s = some l)
    (hk : l.kind = .operator (.numbered fd (.dup none))) :
    ∃ c, l.text.getLast? = some c ∧ (c.isDigit = true ∨ c = '&') := by
  simp only [numbered?] at h
  split at h
  case h_2 =>
    rename_i rest _ hd
    cases h
    have hdigits := List.all_eq_true.1 (List.all_takeWhile (l := rest) (p := Char.isDigit))
    cases htarget : (rest.takeWhile Char.isDigit).getLast? with
    | some c =>
      refine ⟨c, ?_, Or.inl (hdigits c (List.mem_of_getLast? htarget))⟩
      rw [List.getLast?_append, htarget]
      rfl
    | none =>
      refine ⟨'&', ?_, Or.inr rfl⟩
      rw [List.getLast?_append, htarget, List.getLast?_append]
      rfl
  case h_4 => cases h
  all_goals
    cases h
    cases hk

theorem dupReport_eq {source : Text} {c : Char} (hlast : source.getLast? = some c)
    (hc : c.isDigit = true ∨ c = '&') (span : Span) :
    dupReport source span = [⟨Recovery.dupAnomaly source, span⟩] := by
  have hanomaly : Recovery.dupAnomaly source =
      if c.isDigit then .invalidDupTarget else .missingDupTarget := by
    simp [Recovery.dupAnomaly, hlast]
  rw [hanomaly]
  rcases hc with hc | rfl
  · simp [dupReport, hlast, hc]
  · simp [dupReport, hlast, Char.isDigit]

/-! ### A place at a time -/

theorem map_diagnostic_ofToken (t : Token) :
    (Recovery.ofToken t).map Recovery.diagnostic = diagnosticsOfRaw t.text t.span.start := by
  rw [Recovery.ofToken, List.map_map]
  exact List.map_id _

theorem reports_ofToken {s : Text} {t : Token} (ht : t ∈ lex s) :
    (Element.word (Word.ofToken t)).reports s =
      (Recovery.ofToken t).map Recovery.diagnostic := by
  rw [map_diagnostic_ofToken, ← slice_span_of_mem ht]
  rfl

theorem mem_of_mem_placesFrom {before : Option Token} {ts : List Token} {p : Place}
    (h : p ∈ placesFrom before ts) : p.token ∈ ts ∧ ∀ w ∈ p.after, w ∈ ts := by
  induction ts generalizing before with
  | nil => cases h
  | cons t ts ih =>
    rcases List.mem_cons.1 h with rfl | h
    · refine ⟨List.mem_cons_self .., ?_⟩
      intro w hw
      exact List.mem_cons_of_mem _ (List.mem_of_mem_head? hw)
    · obtain ⟨htoken, hafter⟩ := ih h
      exact ⟨List.mem_cons_of_mem _ htoken, fun w hw => List.mem_cons_of_mem _ (hafter w hw)⟩

theorem mem_after_of_targetToken? {p : Place} {w : Token} (h : p.targetToken? = some w) :
    w ∈ p.after := by
  unfold Place.targetToken? at h
  split at h
  · exact (Option.filter_eq_some_iff.1 h).1
  · cases h

theorem Operator.takesWord_iff (op : Operator) : op.takesWord = true ↔ op.effect.op ≠ .dup := by
  cases op with
  | numbered fd form => cases form <;> simp [takesWord, effect]
  | _ => simp [takesWord, effect]

/-- With a word behind it, a redirection lacks nothing but what the word leaves open. -/
theorem reports_of_target {s : Text} {p : Place} {op : Operator} {w : Token}
    (hk : p.token.kind = .operator op) (hw : p.targetToken? = some w) (hmem : w ∈ lex s)
    (hpos : w.span.start < w.span.stop) :
    p.recoveries.map Recovery.diagnostic = p.element?.toList.flatMap (Element.reports s) := by
  have htakes : op.takesWord = true := by
    unfold Place.targetToken? at hw
    split at hw
    · rw [← opensFile_of_operator hk]
      assumption
    · cases hw
  have hop := op.takesWord_iff.1 htakes
  have hempty : (Word.ofToken w).span.isEmpty = false := beq_eq_false_iff_ne.2 (Nat.ne_of_lt hpos)
  have hrecoveries : p.recoveries = Recovery.ofToken w := by
    simp only [Place.recoveries, hk, hw]
  have hword := reports_ofToken hmem
  rw [hrecoveries, Place.element?_of_operator hk, ← hword]
  simp only [Place.redirection?, hk, Place.target, hw, Option.map_some, Option.toList_some,
    List.flatMap_cons, List.flatMap_nil, List.append_nil, Element.reports, if_neg hop, hempty,
    Bool.false_eq_true, if_false]

theorem Recovery.ofBareOperator_of_takesWord {op : Operator} (h : op.takesWord = true) (t : Token) :
    ofBareOperator op t = [missingTarget op.redirectOp t.span] := by
  cases op with
  | numbered fd form =>
    cases form with
    | dup source => cases h
    | _ => rfl
  | _ => rfl

/-- Where the token is read again: the same token in front of what follows it. -/
theorem read_of_mem_lex {s : Text} {t : Token} (ht : t ∈ lex s) :
    ∃ after, Lexeme.read (t.text ++ after) = ⟨t.kind, t.text, after⟩ := by
  obtain ⟨before, after, _, _, hread⟩ := (cut_lex s).mem ht
  exact ⟨after, hread⟩

/-- Without a word behind it, a redirection lacks what its operator asks for. -/
theorem reports_of_bare {s : Text} {p : Place} {op : Operator}
    (hk : p.token.kind = .operator op) (hw : p.targetToken? = none) (hmem : p.token ∈ lex s) :
    p.recoveries.map Recovery.diagnostic = p.element?.toList.flatMap (Element.reports s) := by
  have hrecoveries : p.recoveries = Recovery.ofBareOperator op p.token := by
    simp only [Place.recoveries, hk, hw]
  have helement : p.element? = some (.redirection ⟨op.effect.op, op.effect.fd,
      Word.placeholder p.token.span.stop, op.effect.source, p.token.span⟩) := by
    rw [Place.element?_of_operator hk]
    simp only [Place.redirection?, hk, Place.target, hw]
    rfl
  rw [hrecoveries, helement, Option.toList_some, List.flatMap_cons, List.flatMap_nil,
    List.append_nil]
  cases htakes : op.takesWord with
  | true =>
    have hop := op.takesWord_iff.1 htakes
    have hempty : (Word.placeholder p.token.span.stop).span.isEmpty = true :=
      beq_self_eq_true p.token.span.stop
    rw [Recovery.ofBareOperator_of_takesWord htakes]
    simp only [Element.reports, if_neg hop, hempty, if_true]
    rfl
  | false =>
    cases op with
    | numbered fd form =>
      cases form with
      | dup source =>
        cases source with
        | some source => rfl
        | none =>
          obtain ⟨after, hread⟩ := read_of_mem_lex hmem
          rw [hk] at hread
          have hnumbered := Lexeme.numbered?_of_kind (congrArg Lexeme.kind hread)
          rw [hread] at hnumbered
          obtain ⟨c, hlast, hc⟩ := Lexeme.getLast?_of_dup hnumbered rfl
          have hreport := dupReport_eq hlast hc p.token.span
          have hslice := slice_span_of_mem hmem
          show _ = dupReport (p.token.span.slice s) p.token.span
          rw [hslice, hreport]
          rfl
      | _ => cases htakes
    | _ => cases htakes

theorem Place.reports_eq {s : Text} {p : Place} (plain : p.token.isPlain = true)
    (hmem : p.token ∈ lex s) (hafter : ∀ w ∈ p.after, w ∈ lex s ∧ w.span.start < w.span.stop) :
    p.recoveries.map Recovery.diagnostic = p.element?.toList.flatMap (Element.reports s) := by
  cases hk : p.token.kind with
  | word =>
    rw [Place.recoveries_of_word hk, Place.element?_of_word hk]
    cases p.isTarget with
    | true => rfl
    | false =>
      have hword := reports_ofToken hmem
      simp only [Bool.false_eq_true, if_false, Option.toList_some, List.flatMap_cons,
        List.flatMap_nil, List.append_nil, hword]
  | operator op =>
    cases hw : p.targetToken? with
    | none => exact reports_of_bare hk hw hmem
    | some w =>
      obtain ⟨hlex, hpos⟩ := hafter w (mem_after_of_targetToken? hw)
      exact reports_of_target hk hw hlex hpos
  | pipe => simp [Token.isPlain, Token.isPipe, hk] at plain
  | endOfInput => simp [Token.isPlain, Token.isEnd, hk] at plain

/-! ### A clause at a time -/

/-- What is repaired in a clause is what its command shows. -/
theorem Clauses.reports_stage {s : Text} {cs : List Clause} (h : Clauses (lex s) cs) {c : Clause}
    (hc : c ∈ cs) : c.stage.recoveries.map Recovery.diagnostic = c.stage.command.reports s := by
  have hplace : ∀ p ∈ places c.tokens,
      p.recoveries.map Recovery.diagnostic = p.element?.toList.flatMap (Element.reports s) := by
    intro p hp
    obtain ⟨htoken, hafter⟩ := mem_of_mem_placesFrom hp
    refine p.reports_eq (h.plain hc _ htoken) (h.mem_of_mem_tokens hc htoken) ?_
    intro w hw
    exact ⟨h.mem_of_mem_tokens hc (hafter w hw), (h.inOrder hc).nonempty w (hafter w hw)⟩
  calc c.stage.recoveries.map Recovery.diagnostic
      = (places c.tokens).flatMap fun p => p.recoveries.map Recovery.diagnostic := by
        exact List.map_flatMap
    _ = (places c.tokens).flatMap fun p => p.element?.toList.flatMap (Element.reports s) :=
        List.flatMap_congr hplace
    _ = c.elements.flatMap (Element.reports s) := by
        rw [Clause.elements, List.filterMap_eq_flatMap_toList, List.flatMap_assoc]
    _ = c.stage.command.reports s := by
        rw [Command.reports, Clause.elements_command (h.inOrder hc)]

/-! ### Lines -/

theorem emptyCommands_eq (commands : List Command) :
    (emptyCommands commands).map Recovery.diagnostic =
      if 1 < commands.length then commands.flatMap Command.emptyReport else [] := by
  have hempty : ((commands.filter Command.isEmpty).map fun c => Recovery.emptyCommand c.span).map
      Recovery.diagnostic = commands.flatMap Command.emptyReport := by
    induction commands with
    | nil => rfl
    | cons c commands ih =>
      have hc : c.isEmpty = true ↔ c.words = [] ∧ c.redirections = [] := by
        simp [Command.isEmpty]
      rw [List.filter_cons, List.flatMap_cons, ← ih, Command.emptyReport]
      by_cases h : c.isEmpty = true
      · rw [if_pos h, if_pos (hc.1 h)]
        rfl
      · rw [if_neg h, if_neg (hc.not.1 h)]
        rfl
  unfold emptyCommands
  split
  · exact hempty
  · rfl

/-- A line is reported on exactly as its tree shows. -/
theorem diagnostics_parse (s : Text) :
    (parseWithDiagnostics s).diagnostics = (parse s).reports s := by
  obtain ⟨cs, hcs⟩ := exists_clauses_lex s
  have hcommands := commands_parse hcs
  have hstages : ((stagesOfLine s).flatMap Stage.recoveries).map Recovery.diagnostic =
      (parse s).commands.flatMap (Command.reports s) := by
    calc ((stagesOfLine s).flatMap Stage.recoveries).map Recovery.diagnostic
        = cs.flatMap fun c => c.stage.recoveries.map Recovery.diagnostic := by
          rw [stagesOfLine_eq hcs, List.map_flatMap, List.flatMap_map]
      _ = cs.flatMap fun c => c.stage.command.reports s :=
          List.flatMap_congr fun c hc => hcs.reports_stage hc
      _ = (parse s).commands.flatMap (Command.reports s) := by
          rw [hcommands, List.flatMap_map]
  have hempty := emptyCommands_eq (parse s).commands
  calc (parseWithDiagnostics s).diagnostics
      = ((stagesOfLine s).flatMap Stage.recoveries).map Recovery.diagnostic ++
          (emptyCommands (parse s).commands).map Recovery.diagnostic := List.map_append
    _ = (parse s).reports s := by rw [hstages, hempty]; rfl

/-- What is reported of a line is what its tree shows, one thing after the other; and nothing is
reported exactly if no element lacks anything and no command is empty among several. -/
theorem diagnostics_eq_reports (s : Text) :
    (parseWithDiagnostics s).diagnostics = (parse s).reports s ∧
      ((parseWithDiagnostics s).isClean = true ↔
        (∀ c ∈ (parse s).commands, ∀ e ∈ c.elements, e.reports s = []) ∧
          (1 < (parse s).commands.length →
            ∀ c ∈ (parse s).commands, c.words ≠ [] ∨ c.redirections ≠ [])) := by
  refine ⟨diagnostics_parse s, ?_⟩
  have hempty (c : Command) : c.emptyReport = [] ↔ c.words ≠ [] ∨ c.redirections ≠ [] := by
    rw [Command.emptyReport]
    by_cases h : c.words = [] ∧ c.redirections = []
    · simp [h]
    · rw [if_neg h]
      exact iff_of_true rfl (not_and_or.1 h)
  have hclean : (parseWithDiagnostics s).isClean = true ↔ (parse s).reports s = [] := by
    rw [ParseOutput.isClean, List.isEmpty_iff, diagnostics_parse]
  rw [hclean, Pipeline.reports, List.append_eq_nil_iff, List.flatMap_eq_nil_iff]
  refine and_congr ?_ ?_
  · simp only [Command.reports, List.flatMap_eq_nil_iff]
  · by_cases hlength : 1 < (parse s).commands.length
    · rw [if_pos hlength, List.flatMap_eq_nil_iff]
      simp only [hempty, hlength, true_imp_iff]
    · rw [if_neg hlength]
      exact iff_of_true rfl fun h => absurd h hlength

end ShellLine
