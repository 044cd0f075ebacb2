import ShellLine.Proofs.Pipeline.Concatenation
import ShellLine.Proofs.Pipeline.Nesting
import ShellLine.Proofs.Token.Excerpt
import ShellLine.Proofs.Token.Slices

/-! # Commands cut out of their line

The span of a command that is not empty reaches from its first token to its last.
The text under it is cut into the same tokens, which lie as much closer to the start
as the text in front of the command is long. So it is read as a line with this one
command. -/

namespace ShellLine

/-! ### The tokens of a command -/

theorem Clauses.exists_append {ts : List Token} {cs : List Clause} (h : Clauses ts cs) {c : Clause}
    (hc : c ∈ cs) : ∃ front back, ts = front ++ (c.tokens ++ c.stop :: back) := by
  induction h with
  | @last ts e plain stop =>
    obtain rfl := List.mem_singleton.1 hc
    exact ⟨[], [], rfl⟩
  | @cons ts us p cs plain stop tail ih =>
    rcases List.mem_cons.1 hc with rfl | hc
    · exact ⟨[], us, rfl⟩
    · obtain ⟨front, back, hus⟩ := ih hc
      exact ⟨ts ++ p :: front, back, by simp [hus]⟩

/-! ### The span of a command -/

theorem Span.Within.trans {p q r : Span} (h : p.Within q) (h' : q.Within r) : p.Within r :=
  ⟨Nat.le_trans h'.1 h.1, Nat.le_trans h.2 h'.2⟩

theorem Span.within_cover_left (p q : Span) : p.Within (p.cover q) :=
  ⟨Nat.min_le_left .., Nat.le_max_left ..⟩

theorem Span.within_cover_right (p q : Span) : q.Within (p.cover q) :=
  ⟨Nat.min_le_right .., Nat.le_max_right ..⟩

theorem Span.within_foldl_cover (es : List Element) (p : Span) :
    p.Within (es.foldl (fun p e => p.cover e.span) p) ∧
      ∀ e ∈ es, e.span.Within (es.foldl (fun p e => p.cover e.span) p) := by
  induction es generalizing p with
  | nil => exact ⟨⟨Nat.le_refl _, Nat.le_refl _⟩, nofun⟩
  | cons e es ih =>
    obtain ⟨hfirst, hothers⟩ := ih (p.cover e.span)
    refine ⟨(within_cover_left p e.span).trans hfirst, ?_⟩
    intro d hd
    rcases List.mem_cons.1 hd with rfl | hd
    · exact (within_cover_right p d.span).trans hfirst
    · exact hothers d hd

theorem Stage.element_within {s : Stage} {e : Element} (he : e ∈ s.elements) :
    e.span.Within s.span := by
  rw [span]
  cases hes : s.elements with
  | nil =>
    rw [hes] at he
    cases he
  | cons d es =>
    rw [hes] at he
    obtain ⟨hfirst, hothers⟩ := Span.within_foldl_cover es d.span
    rcases List.mem_cons.1 he with rfl | he
    · exact hfirst
    · exact hothers e he

namespace Clause

/-- No token is lost: each lies within an element. -/
theorem exists_element {ts : List Token} (grouped : Grouped ts) (stop : Token) {t : Token}
    (ht : t ∈ ts) : ∃ e ∈ (stage ⟨ts, stop⟩).elements, t.span.Within e.span := by
  induction grouped with
  | nil => cases ht
  | word hk order tail ih =>
    rw [stage_word hk]
    rcases List.mem_cons.1 ht with rfl | ht
    · exact ⟨_, List.mem_cons_self .., Nat.le_refl _, Nat.le_refl _⟩
    · obtain ⟨e, he, hwithin⟩ := ih ht
      exact ⟨e, List.mem_cons_of_mem _ he, hwithin⟩
  | file hk htakes hw order tail ih =>
    rw [stage_file hk htakes hw order]
    rcases List.mem_cons.1 ht with rfl | ht
    · exact ⟨_, List.mem_cons_self .., Span.within_cover_left ..⟩
    rcases List.mem_cons.1 ht with rfl | ht
    · exact ⟨_, List.mem_cons_self .., Span.within_cover_right ..⟩
    · obtain ⟨e, he, hwithin⟩ := ih ht
      exact ⟨e, List.mem_cons_of_mem _ he, hwithin⟩
  | alone hk halone order tail ih =>
    rw [stage_alone hk halone order]
    rcases List.mem_cons.1 ht with rfl | ht
    · exact ⟨_, List.mem_cons_self .., Span.within_cover_left ..⟩
    · obtain ⟨e, he, hwithin⟩ := ih ht
      exact ⟨e, List.mem_cons_of_mem _ he, hwithin⟩

/-- A clause with tokens reaches from the first of them to the last. -/
theorem span_stage {ts : List Token} (plain : ∀ t ∈ ts, t.isPlain = true) (order : InOrder ts)
    (stop : Token) {first last : Token} (hfirst : ts.head? = some first)
    (hlast : ts.getLast? = some last) :
    (stage ⟨ts, stop⟩).span = ⟨first.span.start, last.span.stop⟩ := by
  have hmem := List.mem_of_mem_head? hfirst
  have hmem' := List.mem_of_mem_getLast? hlast
  have hbetween (t : Token) (ht : t ∈ ts) := order.between hfirst hlast ht
  have hij : first.span.start ≤ last.span.stop :=
    Nat.le_trans (Nat.le_of_lt (order.nonempty first hmem)) (hbetween first hmem).2
  have hlaid := laid_elements plain order stop hij (fun t ht => (hbetween t ht).1)
    fun t ht => (hbetween t ht).2
  have grouped := grouped_of_plain plain order
  obtain ⟨e, he, hwithin⟩ := exists_element grouped stop hmem
  obtain ⟨e', he', hwithin'⟩ := exists_element grouped stop hmem'
  have hne : (stage ⟨ts, stop⟩).elements ≠ [] := List.ne_nil_of_mem he
  have hspan := Stage.span_eq hlaid (List.head?_eq_some_head hne)
    (List.getLast?_eq_some_getLast hne)
  have hstart := (hlaid.within (List.mem_map_of_mem (List.head_mem hne))).1
  have hstop := (hlaid.within (List.mem_map_of_mem (List.getLast_mem hne))).2
  have hstart' := (hwithin.trans (Stage.element_within he)).1
  have hstop' := (hwithin'.trans (Stage.element_within he')).2
  rw [hspan] at hstart' hstop' ⊢
  rw [Span.mk.injEq]
  exact ⟨Nat.le_antisymm hstart' hstart, Nat.le_antisymm hstop hstop'⟩

end Clause

/-! ### A line of one command -/

section Alone

variable {n : Nat} {b : Text} {ts : List Token} {e : Token}

theorem Cut.map_shift_lex (h : Cut n b ts) : (lex b).map (Token.shift n) = ts := by
  have hshift := (cut_lex b).shift n
  rw [Nat.add_zero] at hshift
  rw [hshift.eq_tokens, h.eq_tokens]

theorem stagesOfLine_alone (h : Cut n b (ts ++ [e])) (plain : ∀ t ∈ ts, t.isPlain = true)
    (order : InOrder ts) (he : e.kind = .endOfInput) :
    ∃ stage, stagesOfLine b = [stage] ∧ stage.shift n = Clause.stage ⟨ts, e⟩ := by
  have hstop : e.isPlain = false := by simp [Token.isPlain, Token.isEnd, he]
  have hclause := stagesOfTokens_clause [] plain order hstop
  rw [stagesOfTokens_end he, ← h.map_shift_lex] at hclause
  rw [stagesOfTokens_shift n (exists_end_lex b), Prod.mk.injEq, List.map_eq_nil_iff] at hclause
  obtain ⟨hfirst, hothers⟩ := hclause
  have hline : stagesOfLine b = (stagesOfTokens (lex b)).1 :: (stagesOfTokens (lex b)).2 := rfl
  refine ⟨(stagesOfTokens (lex b)).1, ?_, hfirst⟩
  rw [hline, hothers]

theorem shift_span_parse (h : Cut n b (ts ++ [e])) {first last : Token}
    (hfirst : ts.head? = some first) (hlast : ts.getLast? = some last) :
    (parse b).span.shift n = ⟨first.span.start, last.span.stop⟩ := by
  obtain ⟨front, last', hlex, _, _, _, hspan⟩ := covers_parse b
  have hmap := h.map_shift_lex
  rw [hlex, List.map_append, List.map_singleton] at hmap
  obtain ⟨rfl, _⟩ := List.append_inj' hmap rfl
  rw [List.head?_map] at hfirst
  rw [List.getLast?_map] at hlast
  obtain ⟨t, ht, rfl⟩ := Option.map_eq_some_iff.1 hfirst
  obtain ⟨u, hu, rfl⟩ := Option.map_eq_some_iff.1 hlast
  rw [hspan t u ht hu]
  rfl

end Alone

/-- What ends a clause does not matter to a command that is not empty. -/
theorem Clause.command_congr {ts : List Token} (stop stop' : Token)
    (h : (stage ⟨ts, stop⟩).elements ≠ []) :
    (stage ⟨ts, stop⟩).command = (stage ⟨ts, stop'⟩).command := by
  have helements : (stage ⟨ts, stop⟩).elements = (stage ⟨ts, stop'⟩).elements := rfl
  have hspan : (stage ⟨ts, stop⟩).span = (stage ⟨ts, stop'⟩).span := by
    rw [Stage.span, Stage.span, ← helements]
    split
    · rename_i hnil
      exact absurd hnil h
    · rfl
  rw [Stage.command, Stage.command, ← helements, hspan]

/-- The text under a command that is not empty is a line of this one command. -/
theorem parse_slice {s : Text} {c : Command} (hc : c ∈ (parse s).commands)
    (full : c.isEmpty = false) :
    ∃ before after d, s = before ++ (c.span.slice s ++ after) ∧
      c.span = ⟨Text.byteSize before, Text.byteSize before + Text.byteSize (c.span.slice s)⟩ ∧
      (parse (c.span.slice s)).commands = [d] ∧ d.shift c.span.start = c ∧
      (parse (c.span.slice s)).span = ⟨0, Text.byteSize (c.span.slice s)⟩ := by
  obtain ⟨cs, hcs⟩ := exists_clauses_lex s
  rw [commands_parse hcs] at hc
  obtain ⟨⟨ts, stop⟩, hclause, rfl⟩ := List.mem_map.1 hc
  have plain : ∀ t ∈ ts, t.isPlain = true := hcs.plain hclause
  have order : InOrder ts := hcs.inOrder hclause
  rw [Stage.isEmpty_command, List.isEmpty_eq_false_iff] at full
  have hts : ts ≠ [] := by
    rintro rfl
    exact full rfl
  have hfirst := List.head?_eq_some_head hts
  have hlast := List.getLast?_eq_some_getLast hts
  have hspan := Clause.span_stage plain order stop hfirst hlast
  -- cut the tokens of the command out of the line
  obtain ⟨front, back, hlex⟩ := hcs.exists_append hclause
  have hcut := cut_lex s
  rw [hlex] at hcut
  have hkind : (ts.head hts).kind ≠ .endOfInput := by
    have hend := Token.isEnd_of_isPlain (plain _ (List.head_mem hts))
    simpa [Token.isEnd] using hend
  obtain ⟨a, b, c, rfl, hstart, hstop, hcut⟩ :=
    hcut.excerpt (List.cons_ne_nil stop back) hfirst hlast hkind
  rw [Nat.zero_add] at hstart hstop hcut
  rw [hstart, hstop] at hspan
  obtain ⟨stage, hstage, hshift⟩ := stagesOfLine_alone hcut plain order rfl
  have hcommand : (Clause.stage ⟨ts, stop⟩).command.span =
      ⟨Text.byteSize a, Text.byteSize a + Text.byteSize b⟩ := hspan
  rw [hcommand, Span.slice_middle]
  refine ⟨a, c, stage.command, rfl, rfl, ?_, ?_, ?_⟩
  · have hcommands : (parse b).commands = (stagesOfLine b).map Stage.command := rfl
    rw [hcommands, hstage, List.map_singleton]
  · rw [← Stage.command_shift, hshift]
    exact (Clause.command_congr _ _ full).symm
  · have hline := shift_span_parse hcut hfirst hlast
    rw [hstart, hstop] at hline
    simp only [Span.shift, Span.mk.injEq] at hline
    have hzero : (parse b).span.start = 0 := by omega
    have hsize : (parse b).span.stop = Text.byteSize b := by omega
    rw [← hzero, ← hsize]

/-- Between two pipes, an operator without a file behind it. -/
theorem parse_slice_missing_target :
    let s : Text := "ls | wc 2>|cat".toList
    let c : Command := ⟨[⟨[.text "wc".toList ⟨5, 7⟩], ⟨5, 7⟩⟩],
      [⟨.output, some 2, Word.placeholder 10, none, ⟨8, 10⟩⟩], ⟨5, 10⟩⟩
    c ∈ (parse s).commands ∧ c.isEmpty = false ∧
      ∃ before after d, s = before ++ (c.span.slice s ++ after) ∧
        c.span = ⟨Text.byteSize before, Text.byteSize before + Text.byteSize (c.span.slice s)⟩ ∧
        (parse (c.span.slice s)).commands = [d] ∧ d.shift c.span.start = c ∧
        (parse (c.span.slice s)).span = ⟨0, Text.byteSize (c.span.slice s)⟩ := by
  intro s c
  have hc : c ∈ (parse s).commands := by decide +kernel
  have full : c.isEmpty = false := rfl
  exact ⟨hc, full, parse_slice hc full⟩

end ShellLine
