import ShellLine.Proofs.Pipeline.Origins
import ShellLine.Proofs.Word.Extent

/-! # How the spans of a tree lie within each other

A pipeline covers its tokens, a command its elements, a redirection its operator and
its target, and a word its parts. Neighbours lie in a row, and nothing ends behind the
line. What takes no room is a command without elements, which lies where the token
starts that ends it, and the target of an operator that stands alone, which lies at
the end of the operator. -/

namespace ShellLine

/-! ### Nested nodes -/

namespace Word

structure Nested (w : Word) : Prop where
  row : Row (w.parts.map Part.span)
  within : ∀ p ∈ w.parts, p.span.Within w.span

def spans (w : Word) : List Span := w.span :: w.parts.map Part.span

end Word

namespace Redirection

/-- The redirection `r` of an operator token. -/
structure Nested (t : Token) (r : Redirection) : Prop where
  operator : ∃ op, t.kind = .operator op ∧ op.effect = ⟨r.op, r.fd, r.dupTarget⟩
  span : r.span = ⟨t.span.start, r.target.span.stop⟩
  behind : t.span.stop ≤ r.target.span.start
  within : r.target.span.Within r.span
  target : r.target.Nested

def spans (r : Redirection) : List Span := r.span :: r.target.spans

end Redirection

namespace Command

/-- The command `c` of a clause in a line of this span. -/
structure Nested (line : Span) (clause : Clause) (c : Command) : Prop where
  empty : c.isEmpty = true → c.span = Span.empty clause.stop.span.start
  covers : c.isEmpty = false → ∃ first last, c.elements.head? = some first ∧
    c.elements.getLast? = some last ∧ c.span = ⟨first.span.start, last.span.stop⟩
  within : c.isEmpty = false → c.span.Within line
  row : Row (c.elements.map Element.span)
  words : ∀ w ∈ c.words, w.Nested
  redirections : ∀ r ∈ c.redirections, ∃ t ∈ clause.tokens, Redirection.Nested t r

def spans (c : Command) : List Span :=
  c.span :: (c.words.flatMap Word.spans ++ c.redirections.flatMap Redirection.spans)

end Command

namespace Pipeline

/-- All spans of a pipeline. -/
def spans (p : Pipeline) : List Span := p.span :: p.commands.flatMap Command.spans

/-- The pipeline `p` of the line `s`. -/
structure Nested (s : Text) (p : Pipeline) : Prop where
  commands : ∃ cs, Clauses (lex s) cs ∧ List.Forall₂ (Command.Nested p.span) cs p.commands
  apart : p.commands.Pairwise fun c d => c.span.stop ≤ d.span.start
  covers : ∃ front last, lex s = front ++ [last] ∧ last.kind = .endOfInput ∧
    (∀ t ∈ front, t.kind ≠ .endOfInput) ∧
    (front = [] → p.span = Span.empty last.span.start) ∧
    ∀ t u, front.head? = some t → front.getLast? = some u → p.span = ⟨t.span.start, u.span.stop⟩
  bounded : ∀ q ∈ p.spans, q.stop ≤ Text.byteSize s

end Pipeline

/-! ### Words and redirections -/

theorem byteSize_of_mem_lex {s : Text} {t : Token} (ht : t ∈ lex s) :
    t.span.start + Text.byteSize t.text = t.span.stop := by
  obtain ⟨before, after, _, hspan, _⟩ := (cut_lex s).mem ht
  rw [hspan]

theorem Word.nested_ofToken {s : Text} {t : Token} (ht : t ∈ lex s) : (Word.ofToken t).Nested := by
  have hlaid := laid_partsOfRaw t.text t.span.start
  rw [byteSize_of_mem_lex ht] at hlaid
  exact ⟨hlaid.row, fun p hp => hlaid.within (List.mem_map_of_mem hp)⟩

theorem Word.nested_placeholder (i : Nat) : (Word.placeholder i).Nested :=
  ⟨⟨nofun, .nil⟩, nofun⟩

theorem stop_le_of_mem_placesFrom {before : Option Token} {ts : List Token} (order : InOrder ts)
    {p : Place} (hp : p ∈ placesFrom before ts) {w : Token} (hw : w ∈ p.after) :
    p.token.span.stop ≤ w.span.start := by
  induction ts generalizing before with
  | nil => cases hp
  | cons t ts ih =>
    rcases List.mem_cons.1 hp with rfl | hp
    · exact order.stop_le (List.mem_of_mem_head? hw)
    · exact ih order.tail hp

theorem Place.nested_redirection {s : Text} {ts : List Token} (order : InOrder ts)
    (hts : ∀ t ∈ ts, t ∈ lex s) {p : Place} (hp : p ∈ places ts) {r : Redirection}
    (hr : p.redirection? = some r) : Redirection.Nested p.token r := by
  obtain ⟨op, hk, rfl⟩ := redirection?_eq_some hr
  obtain ⟨htoken, hafter⟩ := mem_of_mem_placesFrom hp
  have hpos := order.nonempty p.token htoken
  cases hw : p.targetToken? with
  | none =>
    have htarget : p.target = Word.placeholder p.token.span.stop := by simp only [target, hw]
    rw [htarget]
    exact ⟨⟨op, hk, rfl⟩, rfl, Nat.le_refl _, ⟨Nat.le_of_lt hpos, Nat.le_refl _⟩,
      Word.nested_placeholder _⟩
  | some w =>
    have htarget : p.target = Word.ofToken w := by simp only [target, hw]
    obtain ⟨_, hmem, _⟩ := targetToken?_eq_some hw
    have hbehind := stop_le_of_mem_placesFrom order hp hmem
    rw [htarget]
    refine ⟨⟨op, hk, rfl⟩, rfl, hbehind, ⟨?_, Nat.le_refl _⟩,
      Word.nested_ofToken (hts w (hafter w hmem))⟩
    show p.token.span.start ≤ w.span.start
    omega

/-! ### A clause at a time -/

namespace Clause

theorem laid_alone {t : Token} {op : Operator} {ts : List Token} (hk : t.kind = .operator op)
    (halone : ∀ w ∈ ts.head?, (op.takesWord && w.isWord) = false) (order : InOrder (t :: ts))
    (stop : Token) {i j : Nat} (hi : i ≤ t.span.start)
    (tail : Laid t.span.stop j ((stage ⟨ts, stop⟩).elements.map Element.span)) :
    Laid i j ((stage ⟨t :: ts, stop⟩).elements.map Element.span) := by
  have ht := order.head
  have hspan : t.span.cover (Word.placeholder t.span.stop).span = t.span := by
    have hmax : max t.span.stop t.span.stop = t.span.stop := Nat.max_self _
    simp only [Span.cover, Word.placeholder, Span.empty, hmax, Nat.min_eq_left (Nat.le_of_lt ht)]
  rw [stage_alone hk halone order]
  show Laid i j (t.span.cover (Word.placeholder t.span.stop).span :: _)
  rw [hspan]
  exact .cons hi ht tail

theorem laid_file {t w : Token} {op : Operator} {ts : List Token} (hk : t.kind = .operator op)
    (htakes : op.takesWord = true) (hw : w.kind = .word) (order : InOrder (t :: w :: ts))
    (stop : Token) {i j : Nat} (hi : i ≤ t.span.start)
    (tail : Laid w.span.stop j ((stage ⟨ts, stop⟩).elements.map Element.span)) :
    Laid i j ((stage ⟨t :: w :: ts, stop⟩).elements.map Element.span) := by
  have ht := order.head
  have hpos := order.tail.head
  have hbehind : t.span.stop ≤ w.span.start := order.stop_le (List.mem_cons_self ..)
  have hspan : t.span.cover (Word.ofToken w).span = ⟨t.span.start, w.span.stop⟩ := by
    simp only [Span.cover, Word.ofToken, Span.mk.injEq]
    omega
  rw [stage_file hk htakes hw order]
  show Laid i j (t.span.cover (Word.ofToken w).span :: _)
  rw [hspan]
  exact .cons hi (show t.span.start < w.span.stop by omega) tail

/-- The elements of a clause lie in a row on its tokens. -/
theorem laid_elements {ts : List Token} (plain : ∀ t ∈ ts, t.isPlain = true) (order : InOrder ts)
    (stop : Token) {i j : Nat} (hij : i ≤ j) (hi : ∀ t ∈ ts, i ≤ t.span.start)
    (hj : ∀ t ∈ ts, t.span.stop ≤ j) :
    Laid i j ((stage ⟨ts, stop⟩).elements.map Element.span) := by
  have grouped := grouped_of_plain plain order
  clear plain order
  -- what is left lies behind the last token of the first element
  induction grouped generalizing i with
  | nil => exact .nil hij
  | @word t ts hk order tail ih =>
    rw [stage_word hk]
    refine .cons (hi t (List.mem_cons_self ..)) order.head ?_
    exact ih (hj t (List.mem_cons_self ..)) (fun u hu => order.stop_le hu)
      fun u hu => hj u (List.mem_cons_of_mem _ hu)
  | @file t w op ts hk htakes hw order tail ih =>
    have hmem : w ∈ t :: w :: ts := List.mem_cons_of_mem _ (List.mem_cons_self ..)
    have hrest : ∀ u ∈ ts, u ∈ t :: w :: ts := fun u hu =>
      List.mem_cons_of_mem _ (List.mem_cons_of_mem _ hu)
    exact laid_file hk htakes hw order stop (hi t (List.mem_cons_self ..))
      (ih (hj w hmem) (fun u hu => order.tail.stop_le hu) fun u hu => hj u (hrest u hu))
  | @alone t op ts hk halone order tail ih =>
    exact laid_alone hk halone order stop (hi t (List.mem_cons_self ..))
      (ih (hj t (List.mem_cons_self ..)) (fun u hu => order.stop_le hu)
        fun u hu => hj u (List.mem_cons_of_mem _ hu))

end Clause

theorem Stage.span_eq {s : Stage} {first last : Element} {i j : Nat}
    (h : Laid i j (s.elements.map Element.span)) (hfirst : s.elements.head? = some first)
    (hlast : s.elements.getLast? = some last) : s.span = ⟨first.span.start, last.span.stop⟩ := by
  cases hes : s.elements with
  | nil =>
    rw [hes] at hfirst
    cases hfirst
  | cons e es =>
    rw [hes] at h hfirst hlast
    obtain rfl : e = first := Option.some.inj hfirst
    have hspan : s.span = (es.map Element.span).foldl Span.cover e.span := by
      rw [span, hes, List.foldl_map]
    have hend : ((e :: es).map Element.span).getLast (by simp) = last.span := by
      rw [List.getLast_map, (List.getLast_eq_iff_getLast?_eq_some (List.cons_ne_nil e es)).2 hlast]
    cases h with
    | cons le nonempty tail =>
      rw [hspan, tail.foldl_cover nonempty]
      exact congrArg (fun p : Span => (⟨e.span.start, p.stop⟩ : Span)) hend

theorem Stage.isEmpty_command (s : Stage) : s.command.isEmpty = s.elements.isEmpty := by
  cases hes : s.elements with
  | nil => simp [command, Command.isEmpty, hes]
  | cons e es =>
    cases e <;> simp [command, Command.isEmpty, hes, Element.word?, Element.redirection?]

/-- A stage lies where its elements lie, or where it ends. -/
theorem Stage.span_within {s : Stage} {i j : Nat} (h : Laid i j (s.elements.map Element.span))
    (hi : i ≤ s.stop) (hj : s.stop ≤ j) : i ≤ s.span.start ∧ s.span.stop ≤ j := by
  cases hes : s.elements with
  | nil =>
    have hspan : s.span = Span.empty s.stop := by rw [span, hes]
    rw [hspan]
    exact ⟨hi, hj⟩
  | cons e es =>
    have hne : s.elements ≠ [] := by simp [hes]
    have hlast := List.getLast?_eq_some_getLast hne
    have hfirst := List.head?_eq_some_head hne
    rw [Stage.span_eq h hfirst hlast]
    exact ⟨(h.within (List.mem_map_of_mem (List.head_mem hne))).1,
      (h.within (List.mem_map_of_mem (List.getLast_mem hne))).2⟩

/-! ### Clauses in their order -/

theorem Clauses.stop_mem {ts : List Token} {cs : List Clause} (h : Clauses ts cs) {c : Clause}
    (hc : c ∈ cs) : c.stop ∈ ts := by
  induction h with
  | @last ts e plain stop =>
    obtain rfl := List.mem_singleton.1 hc
    exact List.mem_append_right _ (List.mem_singleton_self e)
  | @cons ts us p cs plain stop tail ih =>
    rcases List.mem_cons.1 hc with rfl | hc
    · exact List.mem_append_right _ (List.mem_cons_self ..)
    · exact List.mem_append_right _ (List.mem_cons_of_mem _ (ih hc))

/-- What ends a clause stands behind its tokens. -/
theorem Clauses.le_stop {ts : List Token} {cs : List Clause} (h : Clauses ts cs)
    (order : ts.Pairwise fun t u => t.span.stop ≤ u.span.start) {c : Clause} (hc : c ∈ cs)
    {t : Token} (ht : t ∈ c.tokens) : t.span.stop ≤ c.stop.span.start := by
  induction h with
  | @last ts e plain stop =>
    obtain rfl := List.mem_singleton.1 hc
    exact (List.pairwise_append.1 order).2.2 t ht e (List.mem_singleton_self e)
  | @cons ts us p cs plain stop tail ih =>
    obtain ⟨_, htail, hbehind⟩ := List.pairwise_append.1 order
    rcases List.mem_cons.1 hc with rfl | hc
    · exact hbehind t ht p (List.mem_cons_self ..)
    · exact ih (List.pairwise_cons.1 htail).2 hc

/-- What ends a clause stands in front of all clauses behind it. -/
theorem Clauses.pairwise_stop {ts : List Token} {cs : List Clause} (h : Clauses ts cs)
    (order : ts.Pairwise fun t u => t.span.stop ≤ u.span.start)
    (forward : ∀ t ∈ ts, t.span.start ≤ t.span.stop) :
    cs.Pairwise fun c d => ∀ t ∈ d.stop :: d.tokens, c.stop.span.start ≤ t.span.start := by
  induction h with
  | last => exact List.pairwise_singleton ..
  | @cons ts us p cs plain stop tail ih =>
    obtain ⟨hp, hus⟩ := List.pairwise_cons.1 (List.pairwise_append.1 order).2.1
    have hmem : ∀ u ∈ p :: us, u ∈ ts ++ p :: us := fun u hu => List.mem_append_right _ hu
    have hpos := forward p (hmem p (List.mem_cons_self ..))
    refine List.pairwise_cons.2 ⟨?_, ih hus fun u hu => forward u ?_⟩
    · intro d hd t ht
      refine Nat.le_trans hpos (hp t ?_)
      rcases List.mem_cons.1 ht with rfl | ht
      · exact tail.stop_mem hd
      · exact tail.mem_of_mem_tokens hd ht
    · exact hmem u (List.mem_cons_of_mem _ hu)

/-! ### Lines -/

theorem InOrder.between {ts : List Token} (order : InOrder ts) {first last : Token}
    (hfirst : ts.head? = some first) (hlast : ts.getLast? = some last) {t : Token} (ht : t ∈ ts) :
    first.span.start ≤ t.span.start ∧ t.span.stop ≤ last.span.stop := by
  refine ⟨?_, ?_⟩
  · obtain ⟨rest, rfl⟩ := List.head?_eq_some_iff.1 hfirst
    have hpos := order.head
    rcases List.mem_cons.1 ht with rfl | ht
    · exact Nat.le_refl _
    · have hle := order.stop_le ht
      omega
  · obtain ⟨front, rfl⟩ := List.getLast?_eq_some_iff.1 hlast
    have hpos := order.nonempty last (List.mem_append_right _ (List.mem_singleton_self last))
    rcases List.mem_append.1 ht with ht | ht
    · have hle := (List.pairwise_append.1 order.apart).2.2 t ht last (List.mem_singleton_self last)
      omega
    · rw [List.mem_singleton.1 ht]

/-- The tokens of a line in front of its end, and the span of its pipeline. -/
theorem exists_front (s : Text) : ∃ front last, lex s = front ++ [last] ∧
    last.span = Span.empty (Text.byteSize s) ∧ last.kind = .endOfInput ∧
    (∀ t ∈ front, t.kind ≠ .endOfInput) ∧ (lex s).filter (fun t => !t.isEnd) = front ∧
    (parse s).span = ⟨((front ++ [last]).head?.map fun t => t.span.start).getD 0,
      (front.getLast?.map fun t => t.span.stop).getD
        (((front ++ [last]).head?.map fun t => t.span.start).getD 0)⟩ := by
  obtain ⟨front, hlex, hfront⟩ := (cut_lex s).ends_once
  rw [Nat.zero_add] at hlex
  have hfilter : (lex s).filter (fun t => !t.isEnd) = front := by
    have hself : front.filter (fun t => !t.isEnd) = front := by
      refine List.filter_eq_self.2 ?_
      intro t ht
      simp [Token.isEnd, hfront t ht]
    rw [hlex, List.filter_append, hself]
    simp [Token.isEnd]
  refine ⟨front, _, hlex, rfl, rfl, hfront, hfilter, ?_⟩
  show spanOfTokens (lex s) = _
  rw [spanOfTokens, hfilter, hlex]

/-- No token but the end of the line reaches out of the span of the pipeline. -/
theorem within_span_parse {s : Text} {t : Token} (ht : t ∈ lex s) (hk : t.isEnd = false) :
    t.span.Within (parse s).span := by
  obtain ⟨front, last, hlex, _, _, _, hfilter, hspan⟩ := exists_front s
  have hmem : t ∈ front := by
    rw [← hfilter]
    exact List.mem_filter.2 ⟨ht, by simp [hk]⟩
  have hne : front ≠ [] := List.ne_nil_of_mem hmem
  have hfirst : front.head? = some (front.head hne) := List.head?_eq_some_head hne
  have hlast : front.getLast? = some (front.getLast hne) := List.getLast?_eq_some_getLast hne
  have horder := (cut_lex s).inOrder_of_plain
  rw [hfilter] at horder
  have hbetween := horder.between hfirst hlast hmem
  rw [hspan, List.head?_append, hfirst, hlast]
  exact hbetween

theorem start_le_stop_parse (s : Text) : (parse s).span.start ≤ (parse s).span.stop := by
  obtain ⟨front, last, hlex, _, _, hfront, _, hspan⟩ := exists_front s
  cases front with
  | nil =>
    rw [hspan]
    exact Nat.le_refl _
  | cons t front =>
    have ht : t ∈ lex s := by
      rw [hlex]
      exact List.mem_cons_self ..
    have hend : t.isEnd = false := by simp [Token.isEnd, hfront t (List.mem_cons_self ..)]
    obtain ⟨hstart, hstop⟩ := within_span_parse ht hend
    have hpos := (tiles_lex s).nonempty t ht (hfront t (List.mem_cons_self ..))
    omega

theorem start_le_of_mem_lex {s : Text} {t : Token} (ht : t ∈ lex s) :
    t.span.start ≤ t.span.stop := by
  have hsize := byteSize_of_mem_lex ht
  omega

theorem stop_le_of_mem_lex {s : Text} {t : Token} (ht : t ∈ lex s) :
    t.span.stop ≤ Text.byteSize s :=
  ((tiles_lex s).text_eq t ht).1

theorem covers_parse (s : Text) : ∃ front last, lex s = front ++ [last] ∧
    last.kind = .endOfInput ∧ (∀ t ∈ front, t.kind ≠ .endOfInput) ∧
    (front = [] → (parse s).span = Span.empty last.span.start) ∧
    ∀ t u, front.head? = some t → front.getLast? = some u →
      (parse s).span = ⟨t.span.start, u.span.stop⟩ := by
  obtain ⟨front, last, hlex, _, hk, hfront, _, hspan⟩ := exists_front s
  refine ⟨front, last, hlex, hk, hfront, ?_, ?_⟩
  · rintro rfl
    exact hspan
  · intro t u ht hu
    rw [hspan, List.head?_append, ht, hu]
    rfl

theorem stop_parse_le (s : Text) : (parse s).span.stop ≤ Text.byteSize s := by
  obtain ⟨front, last, hlex, hend, _, _, _, hspan⟩ := exists_front s
  cases hu : front.getLast? with
  | none =>
    rw [List.getLast?_eq_none_iff.1 hu] at hspan
    rw [hspan]
    show last.span.start ≤ _
    rw [hend]
    exact Nat.le_refl _
  | some u =>
    have hmem : u ∈ lex s := by
      rw [hlex]
      exact List.mem_append_left _ (List.mem_of_getLast? hu)
    rw [hspan, hu]
    exact stop_le_of_mem_lex hmem

namespace Clauses

variable {s : Text} {cs : List Clause} {c : Clause}

theorem laid_stage (h : Clauses (lex s) cs) (hc : c ∈ cs) {i j : Nat} (hij : i ≤ j)
    (hi : ∀ t ∈ c.tokens, i ≤ t.span.start) (hj : ∀ t ∈ c.tokens, t.span.stop ≤ j) :
    Laid i j (c.stage.elements.map Element.span) :=
  Clause.laid_elements (h.plain hc) (h.inOrder hc) c.stop hij hi hj

theorem laid_line (h : Clauses (lex s) cs) (hc : c ∈ cs) :
    Laid (parse s).span.start (parse s).span.stop (c.stage.elements.map Element.span) := by
  have hinside : ∀ t ∈ c.tokens, t.span.Within (parse s).span := fun t ht =>
    within_span_parse (h.mem_of_mem_tokens hc ht) (Token.isEnd_of_isPlain (h.plain hc t ht))
  exact h.laid_stage hc (start_le_stop_parse s) (fun t ht => (hinside t ht).1)
    fun t ht => (hinside t ht).2

theorem nested (h : Clauses (lex s) cs) (hc : c ∈ cs) :
    Command.Nested (parse s).span c c.stage.command := by
  have hlaid := h.laid_line hc
  have hplaced := Clause.placed (h.inOrder hc)
  have helements := Clause.elements_command (h.inOrder hc)
  have hmem : c.stage.command ∈ (parse s).commands := by
    rw [commands_parse h]
    exact List.mem_map_of_mem hc
  refine ⟨?_, ?_, ?_, ?_, ?_, ?_⟩
  · intro hempty
    rw [Stage.isEmpty_command, List.isEmpty_iff] at hempty
    show c.stage.span = _
    rw [Stage.span, hempty]
    rfl
  · intro hfull
    rw [Stage.isEmpty_command, List.isEmpty_eq_false_iff] at hfull
    have hfirst := List.head?_eq_some_head hfull
    have hlast := List.getLast?_eq_some_getLast hfull
    rw [helements]
    exact ⟨_, _, hfirst, hlast, Stage.span_eq hlaid hfirst hlast⟩
  · intro hfull
    rw [Stage.isEmpty_command, List.isEmpty_eq_false_iff] at hfull
    show c.stage.span.Within _
    rw [Stage.span_eq hlaid (List.head?_eq_some_head hfull) (List.getLast?_eq_some_getLast hfull)]
    exact ⟨(hlaid.within (List.mem_map_of_mem (List.head_mem hfull))).1,
      (hlaid.within (List.mem_map_of_mem (List.getLast_mem hfull))).2⟩
  · rw [helements]
    exact hlaid.row
  · intro w hw
    obtain ⟨t, ht, _, rfl⟩ := exists_token_of_mem_words hmem hw
    exact Word.nested_ofToken ht
  · intro r hr
    rw [hplaced.redirections] at hr
    obtain ⟨p, hp, hredirection⟩ := List.mem_filterMap.1 hr
    exact ⟨p.token, (mem_of_mem_placesFrom hp).1,
      Place.nested_redirection (h.inOrder hc) (fun t ht => h.mem_of_mem_tokens hc ht) hp hredirection⟩

/-- A command lies between any offsets between which its tokens and the end of it lie. -/
theorem span_within (h : Clauses (lex s) cs) (hc : c ∈ cs) {i j : Nat}
    (hi : ∀ t ∈ c.stop :: c.tokens, i ≤ t.span.start) (hj : ∀ t ∈ c.tokens, t.span.stop ≤ j)
    (hstop : c.stop.span.start ≤ j) : i ≤ c.stage.span.start ∧ c.stage.span.stop ≤ j := by
  have hle := hi c.stop (List.mem_cons_self ..)
  have hlaid := h.laid_stage hc (Nat.le_trans hle hstop)
    (fun t ht => hi t (List.mem_cons_of_mem _ ht)) hj
  exact Stage.span_within hlaid hle hstop

theorem apart (h : Clauses (lex s) cs) :
    (cs.map fun c => c.stage.command).Pairwise fun c d => c.span.stop ≤ d.span.start := by
  have order := (cut_lex s).ordered
  have hpairs := h.pairwise_stop order fun t ht => start_le_of_mem_lex ht
  refine List.pairwise_map.2 (hpairs.imp_of_mem ?_)
  intro c d hc hd hbehind
  have hstop := (h.span_within hc (fun _ _ => Nat.zero_le _)
    (fun _ ht => h.le_stop order hc ht) (Nat.le_refl _)).2
  have hstart := (h.span_within hd hbehind (fun _ ht => h.le_stop order hd ht) (Nat.le_refl _)).1
  exact Nat.le_trans hstop hstart

theorem stop_command_le (h : Clauses (lex s) cs) (hc : c ∈ cs) :
    c.stage.span.stop ≤ Text.byteSize s := by
  have hstart := start_le_of_mem_lex (h.stop_mem hc)
  have hstop := stop_le_of_mem_lex (h.stop_mem hc)
  exact (h.span_within hc (fun _ _ => Nat.zero_le _)
    (fun t ht => stop_le_of_mem_lex (h.mem_of_mem_tokens hc ht)) (Nat.le_trans hstart hstop)).2

end Clauses

namespace Command

theorem word_mem_elements {c : Command} {w : Word} (hw : w ∈ c.words) :
    Element.word w ∈ c.elements :=
  List.mem_mergeSort.2 (List.mem_append_left _ (List.mem_map_of_mem hw))

theorem redirection_mem_elements {c : Command} {r : Redirection} (hr : r ∈ c.redirections) :
    Element.redirection r ∈ c.elements :=
  List.mem_mergeSort.2 (List.mem_append_right _ (List.mem_map_of_mem hr))

end Command

theorem Word.Nested.bounded {w : Word} (h : w.Nested) {n : Nat} (hn : w.span.stop ≤ n) {q : Span}
    (hq : q ∈ w.spans) : q.stop ≤ n := by
  rcases List.mem_cons.1 hq with rfl | hq
  · exact hn
  · obtain ⟨p, hp, rfl⟩ := List.mem_map.1 hq
    exact Nat.le_trans (h.within p hp).2 hn

/-- Whatever bounds a nested command and its elements bounds all of its spans. -/
theorem Command.Nested.bounded {line : Span} {clause : Clause} {c : Command}
    (h : c.Nested line clause) {n : Nat} (hn : c.span.stop ≤ n)
    (helements : ∀ e ∈ c.elements, e.span.stop ≤ n) {q : Span} (hq : q ∈ c.spans) :
    q.stop ≤ n := by
  rcases List.mem_cons.1 hq with rfl | hq
  · exact hn
  rcases List.mem_append.1 hq with hq | hq
  · obtain ⟨w, hw, hq⟩ := List.mem_flatMap.1 hq
    exact (h.words w hw).bounded (helements _ (word_mem_elements hw)) hq
  · obtain ⟨r, hr, hq⟩ := List.mem_flatMap.1 hq
    obtain ⟨t, _, hnested⟩ := h.redirections r hr
    have hspan : r.span.stop ≤ n := helements _ (redirection_mem_elements hr)
    rcases List.mem_cons.1 hq with rfl | hq
    · exact hspan
    · exact hnested.target.bounded (Nat.le_trans hnested.within.2 hspan) hq

/-- The spans of the tree of a line are nested. -/
theorem nested_parse (s : Text) : (parse s).Nested s := by
  obtain ⟨cs, hcs⟩ := exists_clauses_lex s
  have hcommands := commands_parse hcs
  refine ⟨⟨cs, hcs, ?_⟩, ?_, covers_parse s, ?_⟩
  · rw [hcommands, List.forall₂_map_right_iff, List.forall₂_same]
    intro c hc
    exact hcs.nested hc
  · rw [hcommands]
    exact hcs.apart
  · intro q hq
    rcases List.mem_cons.1 hq with rfl | hq
    · exact stop_parse_le s
    · obtain ⟨command, hmem, hq⟩ := List.mem_flatMap.1 hq
      rw [hcommands] at hmem
      obtain ⟨c, hc, rfl⟩ := List.mem_map.1 hmem
      refine (hcs.nested hc).bounded (hcs.stop_command_le hc) ?_ hq
      intro e he
      rw [Clause.elements_command (hcs.inOrder hc)] at he
      exact Nat.le_trans ((hcs.laid_line hc).within (List.mem_map_of_mem he)).2 (stop_parse_le s)

end ShellLine
