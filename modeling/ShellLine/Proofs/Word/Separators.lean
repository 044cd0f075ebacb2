import Mathlib.Data.List.Infix
import ShellLine.Proofs.Token.Cutting
import ShellLine.Proofs.Word.OpenQuotes

/-! # Separators within words

The scan of words and the reader of raw words take a word apart in different ways, but
where no quote stands within a name in braces they keep step: behind every segment that
something follows, the scan stands outside quotes again. There it ends a word at a blank
and at an operator, so the reader finds neither as plain text outside quotes. -/

namespace ShellLine

/-- Whether no quote stands behind `${` and in front of the first closing brace behind it, or the
end of the text. -/
def NamesUnquoted (s : Text) : Prop :=
  ∀ u, '$' :: '{' :: u <:+ s → ∀ c ∈ u.takeWhile (· ≠ '}'), c ≠ '\'' ∧ c ≠ '"'

namespace NamesUnquoted

theorem iff_tails (s : Text) : NamesUnquoted s ↔
    (s.tails.all fun t => t.take 2 != ['$', '{'] ||
      ((t.drop 2).takeWhile (· ≠ '}')).all fun c => c != '\'' && c != '"') = true := by
  simp only [List.all_eq_true, Bool.or_eq_true, bne_iff_ne, Bool.and_eq_true]
  constructor
  · intro h t ht
    by_cases hfront : t.take 2 = ['$', '{']
    · have hsplit := List.take_append_drop 2 t
      rw [hfront] at hsplit
      rw [List.mem_tails, ← hsplit] at ht
      exact Or.inr (h (t.drop 2) ht)
    · exact Or.inl hfront
  · intro h u hu
    rcases h _ ((List.mem_tails ..).2 hu) with hfront | hquotes
    · exact absurd rfl hfront
    · exact hquotes

instance (s : Text) : Decidable (NamesUnquoted s) := decidable_of_iff' _ (iff_tails s)

variable {s t : Text}

theorem of_suffix (h : NamesUnquoted s) (hts : t <:+ s) : NamesUnquoted t :=
  fun u hu => h u (hu.trans hts)

theorem of_prefix (h : NamesUnquoted s) (hts : t <+: s) : NamesUnquoted t := by
  obtain ⟨rest, rfl⟩ := hts
  intro u hu c hc
  obtain ⟨before, rfl⟩ := hu
  refine h (u ++ rest) ⟨before, by simp⟩ c ?_
  rw [List.takeWhile_append]
  split
  · exact List.mem_append_left _ ((List.takeWhile_prefix _).subset hc)
  · exact hc

theorem of_append_right {before : Text} (h : NamesUnquoted (before ++ s)) : NamesUnquoted s :=
  h.of_suffix (List.suffix_append ..)

theorem name {x : Text} (h : NamesUnquoted ('$' :: '{' :: (x ++ '}' :: s))) (inside : '}' ∉ x) :
    ∀ c ∈ x, c ≠ '\'' ∧ c ≠ '"' := by
  have hwhole : (x ++ '}' :: s).takeWhile (· ≠ '}') = x := by
    refine Text.takeWhile_append_of_stop ?_ ?_
    · intro c hc
      exact decide_eq_true fun hbrace => inside (hbrace ▸ hc)
    · intro c hc
      obtain rfl := Option.some.inj hc
      rfl
  have hquotes := h _ List.suffix_rfl
  rwa [hwhole] at hquotes

end NamesUnquoted

/-! ### Segments leave the scan outside quotes -/

namespace Quoting

variable {q : Quoting}

theorem steps_literals (hq : q.readsNames = true) {x : Text} (h : ∀ c ∈ x, IsLiteral c) :
    q.steps x = q := by
  induction x with
  | nil => rfl
  | cons c x ih =>
    rw [steps_cons, step_literal hq (h c (List.mem_cons_self ..))]
    exact ih fun d hd => h d (List.mem_cons_of_mem _ hd)

/-- Within a name the scan only goes behind a backslash and back, and a backslash in front of the
closing brace takes nothing but the brace. -/
theorem steps_name (hq : q.readsNames = true) {r : Quoting} (hr : r = q ∨ r = q.step '\\')
    {x : Text} (h : ∀ c ∈ x, c ≠ '\'' ∧ c ≠ '"') : r.steps (x ++ ['}']) = q := by
  induction x generalizing r with
  | nil => rcases eq_of_readsNames hq with rfl | rfl <;> rcases hr with rfl | rfl <;> rfl
  | cons c x ih =>
    obtain ⟨hsingle, hdouble⟩ := h c (List.mem_cons_self ..)
    have hstep : r.step c = q ∨ r.step c = q.step '\\' := by
      by_cases hbackslash : c = '\\'
      · subst hbackslash
        rcases hr with rfl | rfl
        · exact Or.inr rfl
        · rcases eq_of_readsNames hq with rfl | rfl <;> exact Or.inl rfl
      · rcases eq_of_readsNames hq with rfl | rfl <;> rcases hr with rfl | rfl <;>
          simp [step, hsingle, hdouble, hbackslash]
    rw [List.cons_append, steps_cons]
    exact ih hstep fun d hd => h d (List.mem_cons_of_mem _ hd)

theorem steps_single {x : Text} (h : '\'' ∉ x) : single.steps x = single := by
  induction x with
  | nil => rfl
  | cons c x ih =>
    rw [List.mem_cons, not_or] at h
    rw [steps_cons, step, if_neg (Ne.symm h.1)]
    exact ih h.2

end Quoting

/-- Behind an item that something follows, the scan is where it was in front of the item. -/
theorem Item.Reads.steps_source {q : Quoting} (hq : q.readsNames = true) {c : Char} {s : Text}
    {i : Item} {r : Text} (h : Reads c s i r) (double : c ≠ '"') (single : q = .bare → c ≠ '\'')
    (more : r ≠ []) (names : NamesUnquoted (c :: s)) : q.steps i.source = q := by
  have hdollar : q.step '$' = q := by rcases Quoting.eq_of_readsNames hq with rfl | rfl <;> rfl
  cases h with
  | backslash => exact absurd rfl more
  | unclosed inside => exact absurd rfl more
  | pair d s => rcases Quoting.eq_of_readsNames hq with rfl | rfl <;> rfl
  | @braced x inside s =>
    have hbrace : q.step '{' = q := by rcases Quoting.eq_of_readsNames hq with rfl | rfl <;> rfl
    show ((q.step '$').step '{').steps (x ++ ['}']) = q
    rw [hdollar, hbrace]
    exact Quoting.steps_name hq (Or.inl rfl) (names.name inside)
  | @plain d x s start inside stop =>
    have hname : ∀ e ∈ d :: x, Quoting.IsLiteral e := by
      intro e he
      rcases List.mem_cons.1 he with rfl | he
      · exact Quoting.isLiteral_of_isNameChar (isNameChar_of_isNameStart start)
      · exact Quoting.isLiteral_of_isNameChar (inside e he)
    show (q.step '$').steps (d :: x) = q
    rw [hdollar]
    exact Quoting.steps_literals hq hname
  | dollar stop => exact hdollar
  | char backslash dollar s =>
    show q.step c = q
    rcases Quoting.eq_of_readsNames hq with rfl | rfl
    · simp [Quoting.step, double, single rfl, backslash]
    · simp [Quoting.step, double, backslash]

theorem DoubleReads.steps_sources {s : Text} {items : List Item} {r : Text}
    (h : DoubleReads s items true r) (names : NamesUnquoted s) :
    Quoting.double.steps (Item.sources items) = .double := by
  generalize hclosed : true = closed at h
  induction h with
  | unclosed => cases hclosed
  | close s => rfl
  | @item c s i r items closed rest quote head tail ih =>
    subst hclosed
    have hhead := head.steps_source (q := .double) rfl quote (by simp) tail.ne_nil names
    have hsources : Item.sources (i :: items) = i.source ++ Item.sources items := rfl
    rw [← head.source_append] at names
    rw [hsources, Quoting.steps_append, hhead]
    exact ih names.of_append_right rfl

theorem Segment.Reads.steps_source {c : Char} {s : Text} {g : Segment} {r : Text}
    (h : Reads c s g r) (more : r ≠ []) (names : NamesUnquoted (c :: s)) :
    Quoting.bare.steps g.source = .bare := by
  cases h with
  | @single x inside s =>
    show Quoting.single.steps (x ++ ['\'']) = .bare
    rw [Quoting.steps_append, Quoting.steps_single inside]
    rfl
  | openSingle inside => exact absurd rfl more
  | @double _ items closed _ inside =>
    cases closed with
    | false => exact absurd inside.rest_eq_nil more
    | true =>
      have hnames : NamesUnquoted s := names.of_suffix (List.suffix_cons ..)
      show Quoting.double.steps (Item.sources items ++ ['"']) = .bare
      rw [Quoting.steps_append, inside.steps_sources hnames]
      rfl
  | bare single double item => exact item.steps_source rfl double (fun _ => single) more names

/-- The scan stands outside quotes in front of every segment. -/
theorem RawReads.steps_front {raw : Text} {front back : List Segment} {g : Segment}
    (h : RawReads raw (front ++ g :: back)) (names : NamesUnquoted raw) :
    Quoting.bare.steps (front.flatMap Segment.source) = .bare := by
  induction front generalizing raw with
  | nil => rfl
  | cons f front ih =>
    cases h with
    | @cons c s _ r _ head tail =>
      have hmore : r ≠ [] := by
        rintro rfl
        cases front <;> cases tail
      have hhead := head.steps_source hmore names
      rw [← head.source_append] at names
      rw [List.flatMap_cons, Quoting.steps_append, hhead]
      exact ih tail names.of_append_right

/-! ### The scan stops at separators -/

/-- No character that a word goes on at, while the scan is outside quotes, ends a word. -/
theorem endsWord_of_scanWord {q : Quoting} {s before after : Text} {c : Char}
    (h : (scanWord q s).word = before ++ c :: after) (hq : q.steps before = .bare) :
    endsWord c (after ++ (scanWord q s).rest) = false := by
  induction before generalizing q s with
  | nil =>
    obtain rfl : q = .bare := hq
    cases s with
    | nil => cases h
    | cons d s =>
      rw [scanWord] at h ⊢
      by_cases hd : endsWord d s = true
      · rw [if_pos ⟨rfl, hd⟩] at h
        cases h
      · rw [if_neg fun hstop => hd hstop.2] at h ⊢
        obtain ⟨rfl, rfl⟩ := List.cons.inj h
        rw [WordScan.cons_rest, scanWord_append]
        exact Bool.eq_false_iff.2 hd
  | cons b before ih =>
    cases s with
    | nil => cases h
    | cons d s =>
      rw [scanWord] at h ⊢
      by_cases hd : q = .bare ∧ endsWord d s = true
      · rw [if_pos hd] at h
        cases h
      · rw [if_neg hd] at h ⊢
        obtain ⟨rfl, htail⟩ := List.cons.inj h
        exact ih htail hq

theorem not_separator_of_endsWord {c : Char} {after more : Text}
    (h : endsWord c (after ++ more) = false) :
    c ∉ [' ', '\t', '\r', '\n', '|', '<', '>'] ∧ ¬ (c = '&' ∧ after.head? = some '>') := by
  simp only [endsWord, isBlank, Bool.or_eq_false_iff, beq_eq_false_iff_ne] at h
  obtain ⟨⟨⟨⟨⟨⟨⟨hspace, htab⟩, hreturn⟩, hfeed⟩, hpipe⟩, hless⟩, hgreater⟩, hamp⟩ := h
  refine ⟨?_, ?_⟩
  · simp only [List.mem_cons, List.not_mem_nil, or_false, not_or]
    exact ⟨hspace, htab, hreturn, hfeed, hpipe, hless, hgreater⟩
  · rintro ⟨rfl, hhead⟩
    rw [List.head?_append, hhead] at hamp
    cases hamp

/-! ### Words of a line -/

/-- If no name in braces holds a quote, a character that a word of the line holds as plain text
outside quotes is no blank and no sign of an operator. -/
theorem not_separator_of_bare {s : Text} (names : NamesUnquoted s) {t : Token} (ht : t ∈ lex s)
    (hk : t.kind = .word) {front back : List Segment} {c : Char}
    (hc : Segment.ofRaw t.text = front ++ .bare (.char c) :: back) :
    t.text = front.flatMap Segment.source ++ c :: back.flatMap Segment.source ∧
      c ∉ [' ', '\t', '\r', '\n', '|', '<', '>'] ∧
      ¬ (c = '&' ∧ (back.flatMap Segment.source).head? = some '>') := by
  obtain ⟨before, after, rfl, _, hread⟩ := (cut_lex s).mem ht
  have htext : t.text = front.flatMap Segment.source ++ c :: back.flatMap Segment.source := by
    have hsources := Segment.flatMap_source_ofRaw t.text
    rw [hc, List.flatMap_append, List.flatMap_cons] at hsources
    exact hsources.symm
  have hreads := rawReads_ofRaw t.text
  rw [hc] at hreads
  have hfront := hreads.steps_front (names.of_append_right.of_prefix (List.prefix_append ..))
  have hscan := Lexeme.scanWord_eq (l := ⟨t.kind, t.text, after⟩) hk hread
  have hends := endsWord_of_scanWord (q := .bare) (s := t.text ++ after)
    (by rw [hscan]; exact htext) hfront
  rw [hscan] at hends
  exact ⟨htext, not_separator_of_endsWord hends⟩

/-- Behind a quoted blank and a name with an escaped one, `&` is plain text in front of `c`. -/
theorem not_separator_of_bare_amp :
    NamesUnquoted "\"a b\"$\x7bn\\ m\x7d&c\\|d|e".toList ∧
      ⟨.word, "\"a b\"$\x7bn\\ m\x7d&c\\|d".toList, ⟨0, 17⟩⟩ ∈
        lex "\"a b\"$\x7bn\\ m\x7d&c\\|d|e".toList ∧
      Segment.ofRaw "\"a b\"$\x7bn\\ m\x7d&c\\|d".toList =
        [.double [.char 'a', .char ' ', .char 'b'] true,
            .bare (.reference "n\\ m".toList .braced)] ++
          .bare (.char '&') :: [.bare (.char 'c'), .bare (.pair '|'), .bare (.char 'd')] ∧
      '&' ∉ [' ', '\t', '\r', '\n', '|', '<', '>'] ∧
      ¬ ('&' = '&' ∧ "c\\|d".toList.head? = some '>') := by
  have names : NamesUnquoted "\"a b\"$\x7bn\\ m\x7d&c\\|d|e".toList := by decide
  have hlex : ⟨.word, "\"a b\"$\x7bn\\ m\x7d&c\\|d".toList, ⟨0, 17⟩⟩ ∈
      lex "\"a b\"$\x7bn\\ m\x7d&c\\|d|e".toList := by decide +kernel
  have hsegments : Segment.ofRaw "\"a b\"$\x7bn\\ m\x7d&c\\|d".toList =
      [.double [.char 'a', .char ' ', .char 'b'] true,
          .bare (.reference "n\\ m".toList .braced)] ++
        .bare (.char '&') :: [.bare (.char 'c'), .bare (.pair '|'), .bare (.char 'd')] := by
    decide +kernel
  exact ⟨names, hlex, hsegments, (not_separator_of_bare names hlex rfl hsegments).2⟩

end ShellLine
