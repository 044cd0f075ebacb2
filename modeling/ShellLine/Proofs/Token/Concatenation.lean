import ShellLine.Proofs.Pipeline.StageCount

/-! # Tokens on both sides of a pipe

Where one text ends outside quotes and a pipe and another text follow, the tokens
are those of the two texts and the pipe. No token of the first text becomes longer
or shorter, because no token but a word can go on at a pipe, and a word ends there;
and the second text is cut as it is cut alone, only further behind. -/

namespace ShellLine

/-! ### Tokens further behind -/

namespace Token

def shift (n : Nat) (t : Token) : Token := { t with span := t.span.shift n }

@[simp] theorem shift_text (n : Nat) (t : Token) : (t.shift n).text = t.text := rfl

@[simp] theorem shift_span (n : Nat) (t : Token) : (t.shift n).span = t.span.shift n := rfl

end Token

theorem Lexeme.tokenAt_shift (n i : Nat) (l : Lexeme) :
    l.tokenAt (n + i) = (l.tokenAt i).shift n := by
  simp only [tokenAt, Token.shift, Span.shift, Nat.add_assoc]

/-- How a text is cut does not depend on where it starts. -/
theorem Cut.shift {i : Nat} {s : Text} {ts : List Token} (h : Cut i s ts) (n : Nat) :
    Cut (n + i) s (ts.map (Token.shift n)) := by
  induction h with
  | @done i gap blank =>
    have hend := @Cut.done (n + i) gap blank
    rw [Nat.add_assoc] at hend
    exact hend
  | @token i gap l ts blank nonempty solid reads tail ih =>
    rw [List.map_cons, ← Lexeme.tokenAt_shift, ← Nat.add_assoc]
    rw [← Nat.add_assoc, ← Nat.add_assoc] at ih
    exact Cut.token blank nonempty solid reads ih

/-! ### The machine at the end of a text -/

namespace Flags

/-- The flags behind a text. -/
def steps (f : Flags) (s : Text) : Flags := s.foldl step f

end Flags

theorem Quoting.flags_injective {q r : Quoting} (h : q.flags = r.flags) : q = r := by
  revert h
  cases q <;> cases r <;> decide

theorem Quoting.flags_steps (q : Quoting) (s : Text) : q.flags.steps s = (q.steps s).flags := by
  induction s generalizing q with
  | nil => rfl
  | cons c s ih =>
    have hstep := q.flags_step c
    rw [Quoting.steps_cons, ← ih, ← hstep]
    rfl

theorem Quoting.steps_bare_iff (s : Text) :
    bare.steps s = bare ↔ Flags.rest.steps s = Flags.rest := by
  have hsteps : Flags.rest.steps s = (bare.steps s).flags := flags_steps bare s
  rw [hsteps]
  constructor
  · intro h
    rw [h]
    rfl
  · intro h
    exact flags_injective h

/-! ### A pipe behind a text -/

theorem endsWord_append_pipe (c : Char) (s t : Text) :
    endsWord c (s ++ '|' :: t) = endsWord c s := by
  cases s <;> simp [endsWord]

/-- A scan that is outside quotes at the end of its text stops there if a pipe follows. -/
theorem scanWord_append_pipe {q : Quoting} {s : Text} (closed : q.steps s = .bare) (t : Text) :
    scanWord q (s ++ '|' :: t) =
      { scanWord q s with rest := (scanWord q s).rest ++ '|' :: t } := by
  induction s generalizing q with
  | nil =>
    obtain rfl : q = .bare := closed
    exact scanWord_stop rfl
  | cons c s ih =>
    have hends := endsWord_append_pipe c s t
    rw [List.cons_append, scanWord, scanWord, hends]
    split
    · rfl
    · have htail := ih (q := q.step c) closed
      rw [htail]
      rfl

theorem takeWhile_append_pipe {p : Char → Bool} (hp : p '|' = false) (s t : Text) :
    (s ++ '|' :: t).takeWhile p = s.takeWhile p ∧
      (s ++ '|' :: t).dropWhile p = s.dropWhile p ++ '|' :: t := by
  induction s with
  | nil => simp [hp]
  | cons c s ih =>
    by_cases hc : p c = true
    · simp [hc, ih]
    · simp [hc]

namespace Lexeme

/-- The lexeme with more text behind it. -/
def extend (t : Text) (l : Lexeme) : Lexeme := { l with rest := l.rest ++ t }

theorem numbered?_append_pipe (s t : Text) :
    numbered? (s ++ '|' :: t) = (numbered? s).map (extend ('|' :: t)) := by
  obtain ⟨htake, hdrop⟩ := takeWhile_append_pipe (p := Char.isDigit) rfl s t
  simp only [numbered?, htake, hdrop]
  -- what stands behind the digits decides; there are at most two signs to look at
  cases fdOfDigits? (s.takeWhile Char.isDigit) with
  | none => rfl
  | some fd =>
    cases s.dropWhile Char.isDigit with
    | nil => rfl
    | cons c behind =>
      by_cases hc : c = '>'
      · subst hc
        cases behind with
        | nil => rfl
        | cons d rest =>
          by_cases happend : d = '>'
          · subst happend
            rfl
          · by_cases hdup : d = '&'
            · subst hdup
              obtain ⟨htarget, hrest⟩ := takeWhile_append_pipe (p := Char.isDigit) rfl rest t
              simp only [List.cons_append, htarget, hrest]
              rfl
            · simp [happend, hdup, extend]
      · simp [hc]

/-- Where no sign starts an operator, the text starts with a number and a sign or with a word. -/
theorem read_eq_getD {c : Char} {s : Text} (hc : c ∉ ['|', '<', '>'])
    (hamp : ¬ (c = '&' ∧ s.head? = some '>')) :
    read (c :: s) = (numbered? (c :: s)).getD (word (c :: s)) := by
  simp only [List.mem_cons, List.not_mem_nil, or_false, not_or] at hc
  obtain ⟨hpipe, hless, hgreater⟩ := hc
  generalize hs : c :: s = u
  unfold read
  split
  case h_6 => simp_all
  case h_7 => rfl
  all_goals simp_all

theorem read_append_pipe {s : Text} (hs : s ≠ []) (closed : Quoting.bare.steps s = .bare)
    (t : Text) : read (s ++ '|' :: t) = (read s).extend ('|' :: t) := by
  cases s with
  | nil => exact absurd rfl hs
  | cons c s =>
    by_cases hc : c ∈ ['|', '<', '>']
    · simp only [List.mem_cons, List.not_mem_nil, or_false] at hc
      rcases hc with rfl | rfl | rfl
      · rfl
      · rfl
      · cases s with
        | nil => rfl
        | cons d s =>
          by_cases hd : d = '>'
          · subst hd
            rfl
          · simp [read, extend, hd]
    · by_cases hamp : c = '&' ∧ s.head? = some '>'
      · obtain ⟨rfl, hhead⟩ := hamp
        obtain ⟨s, rfl⟩ := List.head?_eq_some_iff.1 hhead
        rfl
      · have hamp' : ¬ (c = '&' ∧ (s ++ '|' :: t).head? = some '>') := by
          rintro ⟨rfl, hhead⟩
          cases s with
          | nil => simp at hhead
          | cons d s => exact hamp ⟨rfl, hhead⟩
        have hscan := scanWord_append_pipe closed t
        have hnumbered := numbered?_append_pipe (c :: s) t
        have hword : word (c :: s ++ '|' :: t) = (word (c :: s)).extend ('|' :: t) := by
          simp only [word, hscan, extend]
        rw [List.cons_append, read_eq_getD hc hamp', read_eq_getD hc hamp, ← List.cons_append,
          hnumbered, hword]
        cases numbered? (c :: s) <;> rfl

end Lexeme

/-! ### Two texts and a pipe between them -/

theorem Quoting.steps_of_inert {s : Text} (h : ∀ c ∈ s, IsInert c) : bare.steps s = bare := by
  induction s with
  | nil => rfl
  | cons c s ih =>
    have hc := h c (List.mem_cons_self ..)
    rw [steps_cons, hc.step]
    exact ih fun d hd => h d (List.mem_cons_of_mem _ hd)

theorem Quoting.steps_of_blank {gap : Text} (blank : gap.all isBlank = true) :
    bare.steps gap = bare :=
  steps_of_inert fun c hc => isInert_of_isBlank (List.all_eq_true.1 blank c hc)

/-- Only a token that nothing follows leaves a quote open. -/
theorem Lexeme.closed_of_rest (s : Text) :
    (read s).rest = [] ∨ Quoting.bare.steps (read s).text = .bare := by
  unfold read
  split
  case h_7 c s _ _ _ _ _ =>
    cases hn : numbered? (c :: s) with
    | none =>
      have hended := scanWord_ended .bare (c :: s)
      rcases scanWord_rest .bare (c :: s) with hrest | ⟨hbare, _⟩
      · exact Or.inl hrest
      · exact Or.inr (hended.symm.trans hbare)
    | some l => exact Or.inr (Quoting.steps_of_inert (inert_of_numbered hn))
  all_goals exact Or.inr rfl

/-- Behind a token of a text that ends outside quotes, the rest starts and ends outside quotes. -/
theorem Lexeme.steps_rest {l : Lexeme} (reads : read (l.text ++ l.rest) = l)
    (closed : Quoting.bare.steps (l.text ++ l.rest) = .bare) :
    Quoting.bare.steps l.rest = .bare := by
  have h := closed_of_rest (l.text ++ l.rest)
  rw [reads] at h
  rcases h with hrest | htext
  · rw [hrest]
    rfl
  · rw [Quoting.steps_append, htext] at closed
    exact closed

/-- The tokens of the first text up to its end, the pipe, and the tokens of the second text. -/
theorem Cut.append_pipe {i : Nat} {s t : Text} {ts us : List Token} (h : Cut i s ts)
    (closed : Quoting.bare.steps s = .bare) (tail : Cut (i + Text.byteSize s + 1) t us) :
    ∃ front, ts = front ++ [⟨.endOfInput, [], Span.empty (i + Text.byteSize s)⟩] ∧
      Cut i (s ++ '|' :: t) (front ++ (⟨.pipe, ['|'], t⟩ : Lexeme).tokenAt (i + Text.byteSize s) :: us) := by
  induction h with
  | @done i gap blank =>
    refine ⟨[], rfl, ?_⟩
    exact @Cut.token i gap ⟨.pipe, ['|'], t⟩ us blank (by simp) (startsSolid_cons.2 rfl)
      rfl tail
  | @token i gap l ts blank nonempty solid reads _ ih =>
    rw [Quoting.steps_append, Quoting.steps_of_blank blank] at closed
    simp only [Text.byteSize_append, ← Nat.add_assoc] at tail ⊢
    obtain ⟨front, hts, hcut⟩ := ih (Lexeme.steps_rest reads closed) tail
    refine ⟨l.tokenAt (i + Text.byteSize gap) :: front, by rw [hts]; rfl, ?_⟩
    have hread := Lexeme.read_append_pipe (List.append_ne_nil_of_left_ne_nil nonempty _) closed t
    rw [reads, List.append_assoc] at hread
    rw [List.append_assoc, List.append_assoc]
    exact @Cut.token i gap (l.extend ('|' :: t)) _ blank nonempty solid hread hcut

theorem exists_lex_append_pipe {a : Text} (closed : Quoting.bare.steps a = .bare) (b : Text) :
    ∃ front, (∀ t ∈ front, t.kind ≠ .endOfInput) ∧
      lex a = front ++ [⟨.endOfInput, [], Span.empty (Text.byteSize a)⟩] ∧
      lex (a ++ '|' :: b) = front ++ (⟨.pipe, ['|'], b⟩ : Lexeme).tokenAt (Text.byteSize a) ::
        (lex b).map (Token.shift (Text.byteSize a + 1)) := by
  have htail := (cut_lex b).shift (Text.byteSize a + 1)
  rw [Nat.add_zero, ← Nat.zero_add (Text.byteSize a)] at htail
  obtain ⟨front, hlex, hcut⟩ := (cut_lex a).append_pipe closed htail
  obtain ⟨front', hlex', hfront⟩ := (cut_lex a).ends_once
  rw [Nat.zero_add] at hlex hlex' hcut
  obtain rfl : front = front' := List.append_cancel_right (hlex.symm.trans hlex')
  exact ⟨front, hfront, hlex, hcut.eq_tokens.symm⟩

end ShellLine
