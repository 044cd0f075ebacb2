import ShellLine.Proofs.Pipeline.Stages
import ShellLine.Proofs.Surface.Lexing
import ShellLine.Proofs.Surface.Splitting
import ShellLine.Proofs.Surface.Values

/-! # Rendered lines are read as they were written

The tokens of an element give the element again and nothing to repair, so the
tokens of a stage give its elements, and a pipe or the end of the line closes the
stage. With that, a line that is written from a tree is read as the tree means. -/

namespace ShellLine.Surface

/-! ### Elements -/

namespace Word

theorem ofToken_render (w : Word) (i : Nat) :
    ShellLine.Word.ofToken (tokenAt .word w.render i) = w.meaning i := by
  have hparts := w.partsOfRaw_render i
  show (⟨partsOfRaw w.render i, ⟨i, i + w.size⟩⟩ : ShellLine.Word) = _
  rw [hparts]
  rfl

theorem recoveries_render (w : Word) (i : Nat) :
    Recovery.ofToken (tokenAt .word w.render i) = [] := by
  show (diagnosticsOfRaw w.render i).map _ = []
  rw [w.diagnosticsOfRaw_render]
  rfl

end Word

namespace Sign

theorem takesWord_operator (sign : Sign) : sign.operator.takesWord = true := by
  cases sign <;> rfl

theorem redirectOp_operator (sign : Sign) : sign.operator.redirectOp = sign.op := by
  cases sign <;> rfl

theorem fd?_operator (sign : Sign) : sign.operator.fd? = sign.fd? := by
  cases sign <;> rfl

theorem dupTarget?_operator (sign : Sign) : sign.operator.dupTarget? = none := by
  cases sign <;> rfl

end Sign

namespace Element

/-- The tokens of an element are read as the element, and nothing is repaired. -/
theorem stagesOfTokens_tokens (e : Element) (i : Nat) (ts : List Token) :
    stagesOfTokens (e.tokens i ++ ts) = consStage (e.meaning i) [] (stagesOfTokens ts) := by
  cases e with
  | word w =>
    have hword := w.ofToken_render i
    have hrecoveries := w.recoveries_render i
    show consStage (.word (ShellLine.Word.ofToken (tokenAt .word w.render i)))
      (Recovery.ofToken (tokenAt .word w.render i)) (stagesOfTokens ts) = _
    rw [hword, hrecoveries]
    rfl
  | file sign gap target =>
    have hcover : (⟨i, i + sign.size⟩ : Span).cover
        ⟨i + sign.size + Text.byteSize gap.text,
          i + sign.size + Text.byteSize gap.text + target.size⟩ =
        ⟨i, i + (file sign gap target).size⟩ := by
      simp only [Span.cover, Span.mk.injEq, size_file]
      omega
    have hread := stagesOfTokens_file (t := tokenAt (.operator sign.operator) sign.render i)
      (w := tokenAt .word target.render (i + sign.size + Text.byteSize gap.text)) rfl
      sign.takesWord_operator rfl ts
    refine hread.trans ?_
    rw [target.ofToken_render, target.recoveries_render, Redirection.ofToken,
      sign.redirectOp_operator, sign.fd?_operator, sign.dupTarget?_operator]
    exact congrArg (fun span => consStage (.redirection ⟨_, _, _, _, span⟩) [] _) hcover
  | dup fd source =>
    have hcover : (⟨i, i + (dup fd source).size⟩ : Span).cover
        (Span.empty (i + (dup fd source).size)) = ⟨i, i + (dup fd source).size⟩ := by
      simp only [Span.empty, Span.cover, Span.mk.injEq]
      omega
    have hread := stagesOfTokens_alone
      (t := tokenAt (.operator (.numbered fd.value (.dup (some source.value))))
        (dup fd source).render i) rfl ts fun _ _ => rfl
    refine hread.trans ?_
    exact congrArg (fun span => consStage (.redirection ⟨_, _, _, _, span⟩) [] _) hcover

end Element

/-! ### Stages -/

/-- Puts elements for which nothing was repaired in front of the first of some stages. -/
def consStages (es : List ShellLine.Element) (p : ShellLine.Stage × List ShellLine.Stage) :
    ShellLine.Stage × List ShellLine.Stage :=
  es.foldr (fun e p => consStage e [] p) p

theorem consStages_eq (es fs : List ShellLine.Element) (rs : List Recovery) (i : Nat)
    (ss : List ShellLine.Stage) :
    consStages es (⟨fs, rs, i⟩, ss) = (⟨es ++ fs, rs, i⟩, ss) := by
  induction es with
  | nil => rfl
  | cons e es ih =>
    rw [consStages, List.foldr_cons]
    show consStage e [] (consStages es (⟨fs, rs, i⟩, ss)) = _
    rw [ih]
    rfl

namespace Element

theorem span_meaning (e : Element) (i : Nat) : (e.meaning i).span = ⟨i, i + e.size⟩ := by
  cases e <;> rfl

end Element

/-- A command is empty if there are no elements that it could be made of. -/
theorem isEmpty_command_of_elements (es : List ShellLine.Element) (span : Span) :
    Command.isEmpty ⟨es.filterMap ShellLine.Element.word?,
      es.filterMap ShellLine.Element.redirection?, span⟩ = es.isEmpty := by
  cases es with
  | nil => rfl
  | cons e es =>
    cases e with
    | word w => rfl
    | redirection r => exact Bool.and_false _

namespace Stage

theorem stagesOfTokens_tokensOthers (others : List (Gap × Element)) (i : Nat) (ts : List Token) :
    stagesOfTokens (tokensOthers i others ++ ts) =
      consStages (othersFrom i others) (stagesOfTokens ts) := by
  induction others generalizing i with
  | nil => rfl
  | cons other others ih =>
    obtain ⟨gap, e⟩ := other
    rw [tokensOthers, List.append_assoc, e.stagesOfTokens_tokens, ih]
    rfl

theorem stagesOfTokens_tokens (s : Stage) (i : Nat) (ts : List Token) :
    stagesOfTokens (s.tokens i ++ ts) = consStages (s.elements i) (stagesOfTokens ts) := by
  cases s with
  | empty blanks => rfl
  | filled lead first others trail =>
    rw [tokens, List.append_assoc, first.stagesOfTokens_tokens, stagesOfTokens_tokensOthers]
    rfl

/-- What the parser reads for a stage at offset `i`. -/
def parsed (i : Nat) (s : Stage) : ShellLine.Stage := ⟨s.elements i, [], i + s.size⟩

/-- At the end of the line, the stage is the last one. -/
theorem stagesOfTokens_end (s : Stage) (i : Nat) :
    stagesOfTokens (s.tokens i ++ [tokenAt .endOfInput [] (i + s.size)]) = (s.parsed i, []) := by
  rw [s.stagesOfTokens_tokens]
  refine (consStages_eq (s.elements i) [] [] (i + s.size) []).trans ?_
  rw [List.append_nil]
  rfl

/-- A pipe closes the stage. -/
theorem stagesOfTokens_pipe (s : Stage) (i : Nat) {ts : List Token} {t : ShellLine.Stage}
    {ss : List ShellLine.Stage} (hts : stagesOfTokens ts = (t, ss)) :
    stagesOfTokens (s.tokens i ++ tokenAt .pipe ['|'] (i + s.size) :: ts) =
      (s.parsed i, t :: ss) := by
  have hpipe : stagesOfTokens (tokenAt .pipe ['|'] (i + s.size) :: ts) =
      (⟨[], [], i + s.size⟩, t :: ss) := by
    rw [stagesOfTokens]
    show (ShellLine.Stage.empty (i + s.size), (stagesOfTokens ts).1 :: (stagesOfTokens ts).2) = _
    rw [hts]
    rfl
  rw [s.stagesOfTokens_tokens, hpipe, consStages_eq, List.append_nil]
  rfl

theorem cover_othersFrom (others : List (Gap × Element)) {i j : Nat} (hij : i ≤ j) :
    (othersFrom j others).foldl (fun (span : Span) e => span.cover e.span) ⟨i, j⟩ =
      ⟨i, j + Text.byteSize (renderOthers others)⟩ := by
  induction others generalizing j with
  | nil => rfl
  | cons other others ih =>
    obtain ⟨gap, e⟩ := other
    have hcover : (⟨i, j⟩ : Span).cover (e.meaning (j + Text.byteSize gap.text)).span =
        ⟨i, j + Text.byteSize gap.text + e.size⟩ := by
      simp only [e.span_meaning, Span.cover, Span.mk.injEq]
      omega
    rw [othersFrom, List.foldl_cons, hcover, ih (by omega), size_renderOthers]
    simp only [Nat.add_assoc]

theorem span_parsed (s : Stage) (i : Nat) :
    (s.parsed i).span = ⟨s.start i, max (s.start i) (s.stop i)⟩ := by
  cases s with
  | empty blanks =>
    show Span.empty (i + Text.byteSize blanks.text) = _
    rw [Span.empty, Span.mk.injEq]
    refine ⟨rfl, ?_⟩
    show _ = max (i + Text.byteSize blanks.text) i
    omega
  | filled lead first others trail =>
    have hfirst := first.span_meaning (i + Text.byteSize lead.text)
    show (othersFrom _ others).foldl (fun span e => span.cover e.span)
      (first.meaning (i + Text.byteSize lead.text)).span = _
    rw [hfirst, cover_othersFrom others (Nat.le_add_right _ _)]
    simp only [start, stop, Span.mk.injEq, true_and]
    omega

/-- What is reported of a stage is that its command is empty. -/
theorem lack_eq (s : Stage) (i : Nat) :
    s.lack i = if (s.command i).isEmpty then [⟨.emptyCommand, (s.command i).span⟩] else [] := by
  have hempty : (s.command i).isEmpty = (s.elements i).isEmpty :=
    isEmpty_command_of_elements (s.elements i) _
  rw [hempty]
  cases s with
  | empty blanks =>
    have hspan := (empty blanks).span_parsed i
    show _ = [(⟨.emptyCommand, ⟨(empty blanks).start i,
      max ((empty blanks).start i) ((empty blanks).stop i)⟩⟩ : Diagnostic)]
    rw [← hspan]
    rfl
  | filled lead first others trail => rfl

/-- The command of a stage is read as the stage means. -/
theorem command_parsed (s : Stage) (i : Nat) : (s.parsed i).command = s.command i := by
  have hspan := s.span_parsed i
  rw [ShellLine.Stage.command, hspan]
  rfl

end Stage

/-! ### Lines -/

namespace Line

theorem stagesOfTokens_stages (i : Nat) (s : Stage) (ss : List Stage) :
    stagesOfTokens (tokensFrom i s ss ++
        [tokenAt .endOfInput [] (i + Text.byteSize (s.render ++ renderOthers ss))]) =
      (s.parsed i, overStages Stage.parsed (i + s.size + 1) ss) := by
  induction ss generalizing i s with
  | nil =>
    have hnil : s.render ++ renderOthers [] = s.render := List.append_nil _
    rw [hnil]
    exact s.stagesOfTokens_end i
  | cons t ss ih =>
    have hsize := size_cons i s t ss
    -- the end of the line is the same, counted from the first stage or from the second
    rw [tokensFrom, List.append_assoc, List.cons_append, ← hsize, s.stagesOfTokens_pipe i (ih _ t)]
    rfl

theorem stagesOfLine_render (l : Line) :
    stagesOfLine l.render = overStages Stage.parsed 0 (l.first :: l.others) := by
  have hstages := stagesOfTokens_stages 0 l.first l.others
  rw [Nat.zero_add] at hstages
  rw [stagesOfLine, l.lex_render]
  show (stagesOfTokens _).1 :: (stagesOfTokens _).2 = _
  rw [render, hstages]
  rfl

theorem map_overStages {α β : Type} (g : α → β) (f : Nat → Stage → α) (i : Nat) (ss : List Stage) :
    (overStages f i ss).map g = overStages (fun i s => g (f i s)) i ss := by
  induction ss generalizing i with
  | nil => rfl
  | cons s ss ih => rw [overStages, List.map_cons, ih, overStages]

theorem commands_render (l : Line) :
    (stagesOfLine l.render).map ShellLine.Stage.command = l.commands := by
  rw [stagesOfLine_render, map_overStages]
  exact congrArg (fun f => overStages f 0 (l.first :: l.others))
    (funext fun i => funext fun s => s.command_parsed i)

theorem recoveries_overStages (i : Nat) (ss : List Stage) :
    (overStages Stage.parsed i ss).flatMap ShellLine.Stage.recoveries = [] := by
  induction ss generalizing i with
  | nil => rfl
  | cons s ss ih => rw [overStages, List.flatMap_cons, ih]; rfl

/-! ### Empty commands -/

theorem emptyCommands_overStages (i : Nat) (ss : List Stage) :
    ((overStages Stage.command i ss).filter Command.isEmpty).map
        (fun c => (⟨.emptyCommand, c.span⟩ : Diagnostic)) =
      (overStages Stage.lack i ss).flatten := by
  induction ss generalizing i with
  | nil => rfl
  | cons s ss ih =>
    have hhead := s.lack_eq i
    rw [overStages, overStages, List.flatten_cons, ← ih, hhead, List.filter_cons]
    cases (s.command i).isEmpty <;> rfl

theorem length_overStages {α : Type} (f : Nat → Stage → α) (i : Nat) (ss : List Stage) :
    (overStages f i ss).length = ss.length := by
  induction ss generalizing i with
  | nil => rfl
  | cons s ss ih => rw [overStages, List.length_cons, List.length_cons, ih]

theorem diagnostics_emptyCommands (l : Line) :
    (emptyCommands l.commands).map Recovery.diagnostic = l.diagnostics := by
  have hempty := emptyCommands_overStages 0 (l.first :: l.others)
  have hlength : l.commands.length = l.others.length + 1 :=
    length_overStages Stage.command 0 (l.first :: l.others)
  unfold emptyCommands diagnostics
  by_cases hothers : l.others = []
  · have hone : ¬ l.commands.length > 1 := by simp [hlength, hothers]
    rw [if_neg hone, if_pos hothers]
    rfl
  · have hmore : l.commands.length > 1 := by
      have := List.length_pos_iff.2 hothers
      omega
    rw [if_pos hmore, if_neg hothers, List.map_map]
    exact hempty

end Line

/-! ### The span of the line -/

/-- Where the last of some tokens ends, `i` if there is none. -/
def lastStop (i : Nat) (ts : List Token) : Nat := (ts.getLast?.map fun t => t.span.stop).getD i

theorem lastStop_append (i : Nat) (ts us : List Token) :
    lastStop i (ts ++ us) = lastStop (lastStop i ts) us := by
  rw [lastStop, List.getLast?_append]
  cases hus : us.getLast? <;> simp [lastStop, hus]

theorem lastStop_cons (i : Nat) (t : Token) (ts : List Token) :
    lastStop i (t :: ts) = lastStop t.span.stop ts := by
  rw [← List.singleton_append, lastStop_append]
  rfl

theorem Element.lastStop_tokens (e : Element) (i j : Nat) :
    lastStop j (e.tokens i) = i + e.size := by
  cases e with
  | file sign gap target =>
    rw [Element.size_file]
    show i + sign.size + Text.byteSize gap.text + target.size = _
    omega
  | _ => rfl

namespace Stage

theorem lastStop_tokensOthers (others : List (Gap × Element)) (i : Nat) :
    lastStop i (tokensOthers i others) = i + Text.byteSize (renderOthers others) := by
  induction others generalizing i with
  | nil => rfl
  | cons other others ih =>
    obtain ⟨gap, e⟩ := other
    rw [tokensOthers, lastStop_append, e.lastStop_tokens, ih, size_renderOthers]
    omega

theorem lastStop_tokens (s : Stage) (i : Nat) : lastStop i (s.tokens i) = s.stop i := by
  cases s with
  | empty blanks => rfl
  | filled lead first others trail =>
    rw [tokens, lastStop_append, first.lastStop_tokens, lastStop_tokensOthers]
    rfl

theorem le_stop (s : Stage) (i : Nat) : i ≤ s.stop i := by
  cases s with
  | empty blanks => exact Nat.le_refl i
  | filled lead first others trail =>
    simp only [stop]
    omega

theorem start_le (s : Stage) (i : Nat) : s.start i ≤ i + s.size := by
  cases s with
  | empty blanks => exact Nat.le_refl _
  | filled lead first others trail =>
    simp only [start, size, render, Text.byteSize_append]
    omega

end Stage

namespace Line

theorem lastStop_tokensFrom (i : Nat) (s : Stage) (ss : List Stage) :
    lastStop i (tokensFrom i s ss) = stopFrom i s ss := by
  induction ss generalizing i s with
  | nil => exact s.lastStop_tokens i
  | cons t ss ih =>
    rw [tokensFrom, lastStop_append, lastStop_cons]
    exact ih (i + s.size + 1) t

theorem le_stopFrom (i : Nat) (s : Stage) (ss : List Stage) : i ≤ stopFrom i s ss := by
  induction ss generalizing i s with
  | nil => exact s.le_stop i
  | cons t ss ih =>
    have htail := ih (i + s.size + 1) t
    rw [stopFrom]
    omega

/-- A token, if there is one, ends behind the start of the line. -/
theorem start_le_stopFrom (i : Nat) (s : Stage) (ss : List Stage) (h : tokensFrom i s ss ≠ []) :
    s.start i ≤ stopFrom i s ss := by
  cases ss with
  | nil =>
    cases s with
    | empty blanks => exact absurd rfl h
    | filled lead first others trail =>
      simp only [Stage.start, stopFrom, Stage.stop]
      omega
  | cons t ss =>
    have hstart := s.start_le i
    have htail := le_stopFrom (i + s.size + 1) t ss
    rw [stopFrom]
    omega

theorem head_tokensFrom (i : Nat) (s : Stage) (ss : List Stage) (j : Nat)
    (hj : ss = [] → j = i + s.size) :
    ((tokensFrom i s ss ++ [tokenAt .endOfInput [] j]).head?.map fun t => t.span.start) =
      some (s.start i) := by
  cases s with
  | filled lead first others trail =>
    cases ss <;> cases first <;> rfl
  | empty blanks =>
    cases ss with
    | nil =>
      rw [hj rfl]
      rfl
    | cons t ss => rfl

theorem span_render (l : Line) : spanOfTokens (lex l.render) = l.span := by
  obtain ⟨front, hlex, hfront⟩ := (cut_lex l.render).ends_once
  have htokens := l.lex_render
  have hsame : front = tokensFrom 0 l.first l.others :=
    (List.append_inj' (hlex.symm.trans htokens) rfl).1
  rw [hsame] at hlex hfront
  have hstart : ((lex l.render).head?.map fun t => t.span.start) = some (l.first.start 0) := by
    rw [htokens]
    refine head_tokensFrom 0 l.first l.others _ ?_
    intro hothers
    simp [render, hothers, renderOthers, Stage.size]
  have hfilter : (lex l.render).filter (fun t => !t.isEnd) = tokensFrom 0 l.first l.others := by
    rw [htokens, List.filter_append, List.filter_eq_self.2]
    · exact List.append_nil _
    · intro t ht
      simpa [Token.isEnd] using hfront t ht
  have hstop : lastStop (l.first.start 0) (tokensFrom 0 l.first l.others) =
      max (l.first.start 0) (stopFrom 0 l.first l.others) := by
    have hlast := lastStop_tokensFrom 0 l.first l.others
    -- without a token, the span is empty and stands where the line ends
    by_cases hnil : tokensFrom 0 l.first l.others = []
    · rw [hnil] at hlast ⊢
      rw [← hlast]
      exact (Nat.max_zero _).symm
    · have hle := start_le_stopFrom 0 l.first l.others hnil
      rw [Nat.max_eq_right hle, ← hlast]
      obtain ⟨t, ts, hts⟩ := List.exists_cons_of_ne_nil hnil
      rw [hts, lastStop_cons, lastStop_cons]
  simp only [spanOfTokens, hstart, hfilter, Option.getD_some]
  exact congrArg (Span.mk (l.first.start 0)) hstop

theorem parseWithDiagnostics_render (l : Line) : parseWithDiagnostics l.render = l.meaning := by
  have hcommands := l.commands_render
  have hrecoveries : (stagesOfLine l.render).flatMap ShellLine.Stage.recoveries = [] := by
    rw [stagesOfLine_render]
    exact recoveries_overStages 0 (l.first :: l.others)
  simp only [parseWithDiagnostics, parseLine, Parsed.output, hcommands, hrecoveries, List.nil_append,
    l.diagnostics_emptyCommands, l.span_render]
  rfl

/-- A line that is written from a tree is read as the tree means, with nothing to report but empty
commands, and it expands to what the tree stands for. -/
theorem read_render (l : Line) :
    parseWithDiagnostics l.render = l.meaning ∧
      ∀ lookup, (parse l.render).expand lookup = l.expansion lookup := by
  refine ⟨l.parseWithDiagnostics_render, ?_⟩
  intro lookup
  have hpipeline : parse l.render = l.meaning.pipeline :=
    congrArg ParseOutput.pipeline l.parseWithDiagnostics_render
  rw [hpipeline, l.expand_meaning]

end Line

end ShellLine.Surface
