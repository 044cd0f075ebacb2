import ShellLine.Token.Lexer

/-! # How a text is cut into tokens

The cursor is a function; here its run is a derivation. A text is cut into tokens
by passing a gap of blanks and reading one token, again and again, until nothing
but blanks is left. Every run of the cursor is such a derivation and no other
token list has one, so a property of all tokens of a line is an induction with two
cases. -/

namespace ShellLine

namespace Lexeme

/-- The lexeme as a token that starts at offset `i`. -/
def tokenAt (i : Nat) (l : Lexeme) : Token :=
  ⟨l.kind, l.text, ⟨i, i + Text.byteSize l.text⟩⟩

@[simp] theorem tokenAt_kind (i : Nat) (l : Lexeme) : (l.tokenAt i).kind = l.kind := rfl

@[simp] theorem tokenAt_text (i : Nat) (l : Lexeme) : (l.tokenAt i).text = l.text := rfl

@[simp] theorem tokenAt_start (i : Nat) (l : Lexeme) : (l.tokenAt i).span.start = i := rfl

@[simp] theorem tokenAt_stop (i : Nat) (l : Lexeme) :
    (l.tokenAt i).span.stop = i + Text.byteSize l.text := rfl

end Lexeme

/-! ### Texts that start with no blank -/

/-- The first character, if there is one, is no blank. -/
def StartsSolid (s : Text) : Prop := ∀ c ∈ s.head?, isBlank c = false

theorem startsSolid_nil : StartsSolid [] := by simp [StartsSolid]

theorem startsSolid_cons {c : Char} {s : Text} : StartsSolid (c :: s) ↔ isBlank c = false := by
  simp [StartsSolid]

theorem startsSolid_append {s t : Text} (hs : s ≠ []) : StartsSolid (s ++ t) ↔ StartsSolid s := by
  cases s with
  | nil => exact absurd rfl hs
  | cons c s => simp only [List.cons_append, startsSolid_cons]

/-- A text starts with a gap of blanks. -/
theorem exists_gap (s : Text) : ∃ gap r, s = gap ++ r ∧ gap.all isBlank = true ∧ StartsSolid r :=
  ⟨s.takeWhile isBlank, s.dropWhile isBlank, List.takeWhile_append_dropWhile.symm,
    List.all_takeWhile, Text.stop_dropWhile isBlank s⟩

/-- One step of the cursor: it passes the gap and reads the token behind it. -/
theorem Cursor.next_append {i : Nat} {gap s : Text} (blank : gap.all isBlank = true)
    (solid : StartsSolid s) :
    Cursor.next ⟨i, gap ++ s⟩ =
      ((Lexeme.read s).tokenAt (i + Text.byteSize gap),
        ⟨i + Text.byteSize gap + Text.byteSize (Lexeme.read s).text, (Lexeme.read s).rest⟩) := by
  simp only [Cursor.next, Text.takeWhile_append_of_stop (List.all_eq_true.1 blank) solid,
    Text.dropWhile_append_of_stop (List.all_eq_true.1 blank) solid, Lexeme.tokenAt]

/-! ### The derivation -/

/-- `Cut i s ts`: the text `s`, which starts at offset `i` of its line, is cut into `ts`. -/
inductive Cut : Nat → Text → List Token → Prop
  | done {i : Nat} {gap : Text} (blank : gap.all isBlank = true) :
      Cut i gap [⟨.endOfInput, [], Span.empty (i + Text.byteSize gap)⟩]
  | token {i : Nat} {gap : Text} {l : Lexeme} {ts : List Token}
      (blank : gap.all isBlank = true) (nonempty : l.text ≠ []) (solid : StartsSolid l.text)
      (reads : Lexeme.read (l.text ++ l.rest) = l)
      (tail : Cut (i + Text.byteSize gap + Text.byteSize l.text) l.rest ts) :
      Cut i (gap ++ (l.text ++ l.rest)) (l.tokenAt (i + Text.byteSize gap) :: ts)

namespace Lexeme

/-- A lexeme with a text is no end of the line. -/
theorem kind_ne_end {l : Lexeme} (nonempty : l.text ≠ []) (reads : read (l.text ++ l.rest) = l) :
    l.kind ≠ .endOfInput := by
  intro hk
  rw [← reads, read_kind_eq_end_iff] at hk
  exact nonempty (List.append_eq_nil_iff.1 hk).1

theorem read_solid {s : Text} (hs : s ≠ []) (solid : StartsSolid s) :
    (read s).text ≠ [] ∧ StartsSolid (read s).text := by
  cases s with
  | nil => exact absurd rfl hs
  | cons c s =>
    have hne : (read (c :: s)).text ≠ [] := read_text_ne_nil (startsSolid_cons.1 solid)
    refine ⟨hne, ?_⟩
    rw [← startsSolid_append (t := (read (c :: s)).rest) hne, read_append]
    exact solid

end Lexeme

theorem Cursor.tokens_of_blank {i : Nat} {gap : Text} (blank : gap.all isBlank = true) :
    Cursor.tokens ⟨i, gap⟩ = [⟨.endOfInput, [], Span.empty (i + Text.byteSize gap)⟩] := by
  have hnext := Cursor.next_append (i := i) blank startsSolid_nil
  rw [List.append_nil] at hnext
  rw [Cursor.tokens_eq, hnext]
  rfl

theorem Cursor.tokens_append {i : Nat} {gap s : Text} (blank : gap.all isBlank = true)
    (hs : s ≠ []) (solid : StartsSolid s) :
    Cursor.tokens ⟨i, gap ++ s⟩ =
      (Lexeme.read s).tokenAt (i + Text.byteSize gap) ::
        Cursor.tokens ⟨i + Text.byteSize gap + Text.byteSize (Lexeme.read s).text,
          (Lexeme.read s).rest⟩ := by
  rw [Cursor.tokens_eq, Cursor.next_append blank solid]
  have hk : ¬ ((Lexeme.read s).tokenAt (i + Text.byteSize gap)).kind = .endOfInput := by
    rw [Lexeme.tokenAt_kind, Lexeme.read_kind_eq_end_iff]
    exact hs
  exact if_neg hk

/-- A cursor cuts what is left of its text. -/
theorem Cursor.cut_tokens (i : Nat) (s : Text) : Cut i s (Cursor.tokens ⟨i, s⟩) := by
  induction hn : s.length using Nat.strongRecOn generalizing i s with
  | ind n ih =>
    obtain ⟨gap, t, rfl, blank, solid⟩ := exists_gap s
    by_cases ht : t = []
    · subst ht
      rw [List.append_nil, Cursor.tokens_of_blank blank]
      exact Cut.done blank
    · obtain ⟨hne, hfront⟩ := Lexeme.read_solid ht solid
      have happ := Lexeme.read_append t
      have hlen := congrArg List.length happ
      have hpos := List.length_pos_iff.2 hne
      simp only [List.length_append] at hlen hn
      have tail := ih (Lexeme.read t).rest.length (by omega)
        (i + Text.byteSize gap + Text.byteSize (Lexeme.read t).text) (Lexeme.read t).rest rfl
      have whole := Cut.token blank hne hfront (by rw [happ]) tail
      rw [happ] at whole
      rw [Cursor.tokens_append blank ht solid]
      exact whole

/-- The tokens of a line are cut from it. -/
theorem cut_lex (s : Text) : Cut 0 s (lex s) := Cursor.cut_tokens 0 s

/-- A text is cut in one way only. -/
theorem Cut.eq_tokens {i : Nat} {s : Text} {ts : List Token} (h : Cut i s ts) :
    ts = Cursor.tokens ⟨i, s⟩ := by
  induction h with
  | done blank => rw [Cursor.tokens_of_blank blank]
  | @token i gap l ts blank nonempty solid reads tail ih =>
    have hs : l.text ++ l.rest ≠ [] := by simp [nonempty]
    rw [Cursor.tokens_append blank hs ((startsSolid_append nonempty).2 solid), reads, ih]

/-- Where a token of a text stands: what is in front of it, and what it was read from. -/
theorem Cut.mem {i : Nat} {s : Text} {ts : List Token} (h : Cut i s ts) {t : Token} (ht : t ∈ ts) :
    ∃ before after, s = before ++ (t.text ++ after) ∧
      t.span = ⟨i + Text.byteSize before, i + Text.byteSize before + Text.byteSize t.text⟩ ∧
      Lexeme.read (t.text ++ after) = ⟨t.kind, t.text, after⟩ := by
  induction h with
  | @done i gap blank =>
    obtain rfl := List.mem_singleton.1 ht
    exact ⟨gap, [], by simp, rfl, rfl⟩
  | @token i gap l ts blank nonempty solid reads tail ih =>
    rcases List.mem_cons.1 ht with rfl | ht
    · exact ⟨gap, l.rest, rfl, rfl, reads⟩
    · obtain ⟨before, after, hs, hspan, hread⟩ := ih ht
      refine ⟨gap ++ (l.text ++ before), after, by simp [hs], ?_, hread⟩
      rw [hspan]
      simp only [Text.byteSize_append, Nat.add_assoc]

/-- Only the last token is the end of the line. -/
theorem Cut.ends_once {i : Nat} {s : Text} {ts : List Token} (h : Cut i s ts) :
    ∃ front, ts = front ++ [⟨.endOfInput, [], Span.empty (i + Text.byteSize s)⟩] ∧
      ∀ t ∈ front, t.kind ≠ .endOfInput := by
  induction h with
  | done blank => exact ⟨[], rfl, by simp⟩
  | @token i gap l ts blank nonempty solid reads tail ih =>
    obtain ⟨front, rfl, hfront⟩ := ih
    refine ⟨l.tokenAt (i + Text.byteSize gap) :: front, ?_, ?_⟩
    · simp only [List.cons_append, Text.byteSize_append, Nat.add_assoc]
    · intro t ht
      rcases List.mem_cons.1 ht with rfl | ht
      · exact Lexeme.kind_ne_end nonempty reads
      · exact hfront t ht

/-! ### Words -/

namespace Lexeme

theorem numbered?_kind {s : Text} {l : Lexeme} (h : numbered? s = some l) : l.kind ≠ .word := by
  simp only [numbered?] at h
  split at h <;> cases h <;> simp

theorem eq_word_of_kind {s : Text} (h : (read s).kind = .word) : read s = word s := by
  unfold read at h ⊢
  split at h
  case h_7 c s _ _ _ _ _ =>
    cases hn : numbered? (c :: s) with
    | none => rfl
    | some l =>
      rw [hn] at h
      exact absurd h (numbered?_kind hn)
  all_goals cases h

/-- A lexeme that is a word was scanned as one. -/
theorem scanWord_eq {l : Lexeme} (hk : l.kind = .word) (reads : read (l.text ++ l.rest) = l) :
    scanWord .bare (l.text ++ l.rest) = ⟨l.text, l.rest, Quoting.bare.steps l.text⟩ := by
  have hword := eq_word_of_kind (s := l.text ++ l.rest) (by rw [reads, hk])
  rw [reads] at hword
  have htext : (scanWord .bare (l.text ++ l.rest)).word = l.text := (congrArg text hword).symm
  have hrest : (scanWord .bare (l.text ++ l.rest)).rest = l.rest := (congrArg rest hword).symm
  have hended := scanWord_ended .bare (l.text ++ l.rest)
  generalize scanWord .bare (l.text ++ l.rest) = scan at htext hrest hended ⊢
  obtain ⟨w, r, q⟩ := scan
  dsimp only at htext hrest hended
  rw [htext] at hended
  rw [htext, hrest, hended]

/-- What stands behind a word is nothing, or ends the word outside quotes. -/
theorem rest_of_word {l : Lexeme} (hk : l.kind = .word) (reads : read (l.text ++ l.rest) = l) :
    l.rest = [] ∨ Quoting.bare.steps l.text = .bare ∧
      ∃ c s, l.rest = c :: s ∧ endsWord c s = true := by
  have h := scanWord_rest .bare (l.text ++ l.rest)
  rwa [scanWord_eq hk reads] at h

end Lexeme

/-! ### Scans of words -/

namespace WordScan

/-- The scan with more text in front of its word. -/
def prepend (s : Text) (w : WordScan) : WordScan := { w with word := s ++ w.word }

theorem cons_prepend (c : Char) (s : Text) (w : WordScan) :
    (w.prepend s).cons c = w.prepend (c :: s) := rfl

theorem prepend_prepend (s t : Text) (w : WordScan) :
    (w.prepend t).prepend s = w.prepend (s ++ t) := by
  simp only [prepend, List.append_assoc]

end WordScan

/-- Whether a word goes on at `c`, whatever follows, and the state stays as it is. -/
def Quoting.Keeps (q : Quoting) (c : Char) : Prop :=
  q.step c = q ∧ (q = .bare → ∀ after, endsWord c after = false)

theorem scanWord_keeps {q : Quoting} {s : Text} (h : ∀ c ∈ s, q.Keeps c) (more : Text) :
    scanWord q (s ++ more) = (scanWord q more).prepend s := by
  induction s with
  | nil => rfl
  | cons c s ih =>
    obtain ⟨hstep, hend⟩ := h c (List.mem_cons_self ..)
    have hgo : ¬ (q = .bare ∧ endsWord c (s ++ more) = true) := by
      rintro ⟨hq, hc⟩
      rw [hend hq] at hc
      cases hc
    have htail := ih fun d hd => h d (List.mem_cons_of_mem _ hd)
    rw [List.cons_append, scanWord, if_neg hgo, hstep, htail]
    rfl

theorem scanWord_stop {c : Char} {s : Text} (h : endsWord c s = true) :
    scanWord .bare (c :: s) = ⟨[], c :: s, .bare⟩ := by
  rw [scanWord, if_pos ⟨rfl, h⟩]

theorem Quoting.keeps_bare {c : Char} (hstep : c ∉ ['\'', '"', '\\'])
    (hend : c ∉ [' ', '\t', '\r', '\n', '|', '<', '>', '&']) : bare.Keeps c := by
  simp only [List.mem_cons, List.not_mem_nil, or_false, not_or] at hstep hend
  refine ⟨?_, ?_⟩
  · simp [step, hstep]
  · intro _ after
    simp [endsWord, isBlank, hend]

theorem Quoting.keeps_single {c : Char} (h : c ≠ '\'') : single.Keeps c := by
  refine ⟨?_, nofun⟩
  simp [step, h]

theorem Quoting.keeps_double {c : Char} (h : c ∉ ['"', '\\']) : double.Keeps c := by
  simp only [List.mem_cons, List.not_mem_nil, or_false, not_or] at h
  refine ⟨?_, nofun⟩
  simp [step, h]

theorem not_mem_of_any_false {p : Char → Bool} {s : Text} (hs : s.any p = false) {c : Char}
    (hc : p c = true) : c ∉ s := by
  intro hmem
  have hany : s.any p = true := List.any_eq_true.2 ⟨c, hmem, hc⟩
  rw [hs] at hany
  cases hany

theorem Quoting.keeps_bare_of_isDigit {c : Char} (h : c.isDigit = true) : bare.Keeps c :=
  keeps_bare (not_mem_of_any_false rfl h) (not_mem_of_any_false rfl h)

namespace Lexeme

/-- An operator with a number in front starts with a number and `>`. -/
theorem numbered?_front {s : Text} {l : Lexeme} (h : numbered? s = some l) :
    ∃ digits rest, s = digits ++ '>' :: rest ∧ ∀ c ∈ digits, c.isDigit = true := by
  refine ⟨s.takeWhile Char.isDigit, (s.dropWhile Char.isDigit).tail, ?_, ?_⟩
  · have hs := List.takeWhile_append_dropWhile (p := Char.isDigit) (l := s)
    have hd : ∃ rest, s.dropWhile Char.isDigit = '>' :: rest := by
      simp only [numbered?] at h
      split at h
      case h_1 hd => exact ⟨_, hd⟩
      case h_2 hd => exact ⟨_, hd⟩
      case h_3 hd => exact ⟨_, hd⟩
      case h_4 => cases h
    obtain ⟨rest, hd⟩ := hd
    rw [hd] at hs ⊢
    exact hs.symm
  · exact List.all_eq_true.1 List.all_takeWhile

/-- An operator with a number in front goes before words. -/
theorem read_eq_numbered {s : Text} {l : Lexeme} (h : numbered? s = some l) : read s = l := by
  unfold read
  split
  case h_7 => rw [h, Option.getD_some]
  all_goals simp [numbered?, fdOfDigits?] at h

theorem read_greater_alone {s : Text} (h : ¬ s.head? = some '>') :
    read ('>' :: s) = ⟨.operator .greater, ['>'], s⟩ := by
  cases s with
  | nil => rfl
  | cons c s =>
    have hc : c ≠ '>' := fun hgreater => h (congrArg some hgreater)
    simp [read, hc]

/-- Where the scan of a word takes something and does not stop at `>`, the token is that word. -/
theorem read_eq_word {s : Text} (hword : (scanWord .bare s).word ≠ [])
    (hrest : (scanWord .bare s).rest.head? ≠ some '>') : read s = word s := by
  have hnumbered : numbered? s = none := by
    cases hn : numbered? s with
    | none => rfl
    | some l =>
      obtain ⟨digits, rest, rfl, hdigits⟩ := numbered?_front hn
      have hscan := scanWord_keeps (fun c hc => Quoting.keeps_bare_of_isDigit (hdigits c hc)) ('>' :: rest)
      rw [hscan, scanWord_stop rfl] at hrest
      exact absurd rfl hrest
  unfold read
  split
  case h_1 => exact absurd rfl hword
  case h_7 => rw [hnumbered]; rfl
  all_goals exact absurd (by simp [scanWord, endsWord]) hword

end Lexeme
end ShellLine
