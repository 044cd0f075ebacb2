import ShellLine.Proofs.Text.Endings
import ShellLine.Proofs.Toml.Grammar

/-! # Strings are read as the grammar has them

Each of the four forms of a string, in front of anything but one more quote, is read as
the string that it is a form of. -/

namespace ShellLine.Toml

/-! ### Characters with backslashes -/

theorem charOfCode?_toNat (c : Char) : charOfCode? c.toNat = some c := by
  have hvalid : c.toNat.isValidChar := c.valid
  rw [charOfCode?, if_pos hvalid, Char.ofNat_toNat]

theorem readNewline_of_not_isControl {c : Char} (hc : isControl c = false) (t : Text) :
    readNewline (c :: t) = none := by
  unfold readNewline
  split
  · rename_i heq
    rw [List.head_eq_of_cons_eq heq] at hc
    cases hc
  · rename_i heq
    rw [List.head_eq_of_cons_eq heq] at hc
    cases hc
  · rfl

theorem mem_of_escaped? {a c : Char} (h : escaped? a = some c) :
    a ∈ ['"', '\\', 'b', 'f', 'n', 'r', 't'] := by
  unfold escaped? at h
  repeat' split at h
  · rename_i ha
    rcases ha with rfl | rfl <;> simp
  all_goals cases h
  all_goals
    subst_vars
    simp

namespace EscapedForm

variable {c : Char} {w : Text}

theorem readQuotedChar_append (h : EscapedForm c w) (t : Text) :
    readQuotedChar (w ++ t) = some (c, t) := by
  cases h with
  | @letter a h =>
    have hshort : a ≠ 'u' := by
      rintro rfl
      cases h
    have hlong : a ≠ 'U' := by
      rintro rfl
      cases h
    show readEscape (a :: t) = _
    rw [readEscape, if_neg hshort, if_neg hlong, h, Option.map_some]
  | code length value =>
    rw [List.cons_append, List.cons_append, readQuotedChar, if_pos rfl, readEscape, if_pos rfl,
      readCode, ← length, List.take_left, List.drop_left, value, Option.bind_some,
      charOfCode?_toNat]
    simp
  | plain quote backslash control =>
    show readQuotedChar (c :: t) = _
    rw [readQuotedChar, if_neg backslash, if_neg]
    simp [quote, control]

theorem head_ne_quote (h : EscapedForm c w) (t : Text) : (w ++ t).head? ≠ some '"' := by
  cases h with
  | letter => exact nofun
  | code => exact nofun
  | plain quote => exact fun heq => quote (Option.some.inj heq)

theorem length_pos (h : EscapedForm c w) : 0 < w.length := by
  cases h with
  | letter => exact Nat.succ_pos _
  | code => exact Nat.succ_pos _
  | plain => exact Nat.succ_pos _

theorem readNewline_append (h : EscapedForm c w) (t : Text) : readNewline (w ++ t) = none := by
  cases h with
  | letter => rfl
  | code => rfl
  | plain quote backslash control =>
    exact readNewline_of_not_isControl control t

/-- No backslash is the last character of a line. -/
theorem not_continued (h : EscapedForm c w) (t : Text) :
    ¬ ((w ++ t).head? = some '\\' ∧ (readNewline (skipBlanks (w ++ t).tail)).isSome = true) := by
  rintro ⟨hbackslash, hnewline⟩
  cases h with
  | @letter a h =>
    have hmem := mem_of_escaped? h
    simp only [List.mem_cons, List.not_mem_nil, or_false] at hmem
    rcases hmem with rfl | rfl | rfl | rfl | rfl | rfl | rfl <;> cases hnewline
  | code => cases hnewline
  | plain quote backslash => exact backslash (Option.some.inj hbackslash)

end EscapedForm

/-! ### Strings on one line -/

theorem readBasic_cons {s r : Text} {c : Char} (h : readQuotedChar s = some (c, r)) (n : Nat) :
    readBasic (n + 1) s = (readBasic n r).map fun (t, u) => (c :: t, u) := by
  have hquote : ∀ u, s ≠ '"' :: u := by
    rintro u rfl
    cases h
  rw [readBasic, h]
  · show (readBasic n r >>= fun x => some (c :: x.1, x.2)) = _
    cases readBasic n r <;> rfl
  · exact hquote

theorem EscapedRow.readBasic_append {s w : Text} (h : EscapedRow s w) (t : Text) {n : Nat}
    (hn : w.length < n) : readBasic n (w ++ '"' :: t) = some (s, t) := by
  obtain ⟨m, rfl⟩ := Nat.exists_eq_succ_of_ne_zero (Nat.ne_of_gt (Nat.zero_lt_of_lt hn))
  induction h generalizing m with
  | nil => rfl
  | @cons c s v w head tail ih =>
    have hpos := head.length_pos
    rw [List.length_append] at hn
    obtain ⟨k, rfl⟩ : ∃ k, m = k + 1 := ⟨m - 1, by omega⟩
    rw [List.append_assoc, readBasic_cons (head.readQuotedChar_append _) (k + 1),
      ih k (by omega), Option.map_some]

theorem readLiteral_append {s : Text} (hs : ∀ c ∈ s, isLiteralChar c = true) (t : Text) :
    readLiteral (s ++ '\'' :: t) = some (s, t) := by
  have hstop := Text.stop_cons (p := isLiteralChar) (c := '\'') rfl t
  rw [readLiteral, Text.dropWhile_append_of_stop hs hstop, Text.takeWhile_append_of_stop hs hstop]
  rfl

/-! ### Strings over several lines -/

theorem quoteRun_replicate {quote : Char} {t : Text} (ht : t.head? ≠ some quote) (k : Nat) :
    quoteRun quote (List.replicate k quote ++ t) = k := by
  have hinside : ∀ c ∈ List.replicate k quote, (c == quote) = true := by
    intro c hc
    rw [List.eq_of_mem_replicate hc, beq_self_eq_true]
  have hstop : ∀ c ∈ t.head?, (c == quote) = false := by
    intro c hc
    rw [beq_eq_false_iff_ne]
    rintro rfl
    exact ht hc
  rw [quoteRun, Text.takeWhile_append_of_stop hinside hstop, List.length_replicate]

/-- What the readers of strings over several lines have in common: how they read a run of quotes,
and a character `c` that is written as `w`. -/
structure MultiReader (quote : Char) (form : Char → Text → Prop)
    (read : Nat → Text → Option (Text × Text)) : Prop where
  quotes : ∀ n s, read (n + 1) (quote :: s) =
    let run := quoteRun quote (quote :: s)
    match closingQuotes? run with
    | some extra => some (List.replicate extra quote, (quote :: s).drop (extra + 3))
    | none =>
      (read n ((quote :: s).drop run)).map fun (t, u) => (List.replicate run quote ++ t, u)
  char : ∀ {c : Char} {w : Text} (n : Nat), form c w → ∀ t,
    read (n + 1) (w ++ t) = (read n t).map fun (s, u) => (c :: s, u)
  apart : ∀ {c : Char} {w : Text}, form c w → ∀ t, (w ++ t).head? ≠ some quote

namespace MultiReader

variable {quote : Char} {form : Char → Text → Prop} {read : Nat → Text → Option (Text × Text)}

theorem quotes_replicate (reader : MultiReader quote form read) {k : Nat} (hk : 0 < k) {t : Text}
    (ht : t.head? ≠ some quote) (n : Nat) :
    read (n + 1) (List.replicate k quote ++ t) =
      match closingQuotes? k with
      | some extra =>
        some (List.replicate extra quote, (List.replicate k quote ++ t).drop (extra + 3))
      | none => (read n t).map fun (s, u) => (List.replicate k quote ++ s, u) := by
  have hrun := quoteRun_replicate ht k
  have hdrop : (List.replicate k quote ++ t).drop k = t := List.drop_left' List.length_replicate
  obtain ⟨j, rfl⟩ := Nat.exists_eq_succ_of_ne_zero (Nat.ne_of_gt hk)
  rw [List.replicate_succ, List.cons_append] at hrun hdrop ⊢
  rw [reader.quotes, hrun]
  dsimp only
  rw [hdrop]
  rfl

theorem run (reader : MultiReader quote form read) {k : Nat} (hpos : 0 < k) (hk : k ≤ 2) {t : Text}
    (ht : t.head? ≠ some quote) (n : Nat) :
    read (n + 1) (List.replicate k quote ++ t) =
      (read n t).map fun (s, u) => (List.replicate k quote ++ s, u) := by
  rw [reader.quotes_replicate hpos ht, closingQuotes?, if_pos (by omega)]

theorem close (reader : MultiReader quote form read) {k : Nat} (hk : k ≤ 2) {t : Text}
    (ht : t.head? ≠ some quote) (n : Nat) :
    read (n + 1) (List.replicate (k + 3) quote ++ t) = some (List.replicate k quote, t) := by
  have hextra : min (k + 3) 5 - 3 = k := by omega
  rw [reader.quotes_replicate (Nat.succ_pos _) ht, closingQuotes?, if_neg (by omega), hextra]
  dsimp only
  rw [List.drop_left' List.length_replicate]

theorem length_pos (reader : MultiReader quote form read) {c : Char} {w : Text} (h : form c w) :
    0 < w.length := by
  cases w with
  | nil => exact absurd rfl (reader.apart h [quote])
  | cons d w => exact Nat.succ_pos _

theorem read_append (reader : MultiReader quote form read) {k : Nat} {s w : Text}
    (h : MultiForm quote form k s w) {t : Text} (ht : t.head? ≠ some quote) {n : Nat}
    (hn : k + w.length < n) :
    read n (List.replicate k quote ++ (w ++ (List.replicate 3 quote ++ t))) =
      some (List.replicate k quote ++ s, t) := by
  induction h generalizing n with
  | @nil k le =>
    obtain ⟨m, rfl⟩ := Nat.exists_eq_succ_of_ne_zero (Nat.ne_of_gt (Nat.zero_lt_of_lt hn))
    rw [List.nil_append, ← List.append_assoc, List.replicate_append_replicate, List.append_nil]
    exact reader.close le ht m
  | @quote k s w tail ih =>
    -- the quote joins those in front of it, which are read in one step
    have hk (u : Text) :
        List.replicate k quote ++ quote :: u = List.replicate (k + 1) quote ++ u := by
      rw [List.replicate_succ', List.append_assoc, List.singleton_append]
    rw [List.cons_append, hk, hk]
    exact ih (by simp only [List.length_cons] at hn; omega)
  | @char k c v s w le head tail ih =>
    have hpos := reader.length_pos head
    rw [List.length_append] at hn
    rw [List.append_assoc]
    cases k with
    | zero =>
      obtain ⟨m, rfl⟩ : ∃ m, n = m + 1 := ⟨n - 1, by omega⟩
      have htail := ih (n := m) (by omega)
      rw [List.replicate_zero, List.nil_append, List.nil_append] at htail ⊢
      rw [reader.char m head, htail, Option.map_some]
    | succ k =>
      -- the quotes in front are a step of their own
      obtain ⟨m, rfl⟩ : ∃ m, n = m + 2 := ⟨n - 2, by omega⟩
      have htail := ih (n := m) (by omega)
      rw [List.replicate_zero, List.nil_append, List.nil_append] at htail
      rw [reader.run (Nat.succ_pos k) le (reader.apart head _) (m + 1), reader.char m head, htail,
        Option.map_some, Option.map_some]

end MultiReader

/-! ### Between triple quotes -/

theorem readMultiBasic_char {c : Char} {w : Text} (h : EscapedForm c w) (t : Text) (n : Nat) :
    readMultiBasic (n + 1) (w ++ t) = (readMultiBasic n t).map fun (s, u) => (c :: s, u) := by
  have hchar := h.readQuotedChar_append t
  have hnewline := h.readNewline_append t
  have hcontinued := h.not_continued t
  cases hw : w ++ t with
  | nil => rw [hw] at hchar; cases hchar
  | cons d rest =>
    rw [hw] at hchar hnewline hcontinued
    have hquote : d ≠ '"' := by
      rintro rfl
      cases hchar
    have hcontinued : ¬(d = '\\' ∧ (readNewline (skipBlanks rest)).isSome = true) :=
      fun ⟨hd, hnewline⟩ => hcontinued ⟨congrArg some hd, hnewline⟩
    rw [readMultiBasic, if_neg hquote, if_neg hcontinued, hnewline]
    dsimp only
    rw [hchar]
    show (readMultiBasic n t >>= fun x => some (c :: x.1, x.2)) = _
    cases readMultiBasic n t <;> rfl

theorem multiReader_readMultiBasic : MultiReader '"' MultiBasicForm readMultiBasic where
  quotes _ _ := rfl
  char := by
    intro c w n h t
    rcases h with h | ⟨rfl, rfl⟩
    · exact readMultiBasic_char h t n
    · rfl
  apart := by
    intro c w h t
    rcases h with h | ⟨rfl, rfl⟩
    · exact h.head_ne_quote t
    · exact nofun

theorem multiReader_readMultiLiteral : MultiReader '\'' MultiLiteralForm readMultiLiteral where
  quotes _ _ := rfl
  char := by
    rintro c _ n ⟨rfl, hquote, hplain⟩ t
    rw [List.singleton_append, readMultiLiteral, if_neg hquote]
    rcases hplain with rfl | hplain
    · rfl
    · rw [readNewline_of_not_isControl hplain, hplain]
      rfl
  apart := by
    rintro c _ ⟨rfl, hquote, _⟩ t heq
    exact hquote (Option.some.inj heq)

theorem Opening.dropNewline_append {w lead : Text} (h : Opening w lead) {c : Char}
    (hc : isControl c = false) (t : Text) : dropNewline (lead ++ (w ++ c :: t)) = w ++ c :: t := by
  rcases h with rfl | ⟨rfl, hfirst⟩
  · rfl
  · have hnewline : readNewline (w ++ c :: t) = none := by
      cases w with
      | nil => exact readNewline_of_not_isControl hc t
      | cons d w => exact readNewline_of_not_isControl (hfirst d rfl) _
    rw [List.nil_append, dropNewline, hnewline]
    rfl

/-! ### Strings -/

theorem EscapedRow.readString_append {s w : Text} (row : EscapedRow s w) {t : Text}
    (ht : t.head? ≠ some '"') : readString ('"' :: (w ++ '"' :: t)) = some (s, t) := by
  -- an empty string and the quote behind it would open a string over several lines
  have hquotes : ∀ u, w ++ '"' :: t ≠ '"' :: '"' :: u := by
    intro u heq
    cases row with
    | nil => exact ht (congrArg List.head? (List.tail_eq_of_cons_eq heq))
    | @cons c s v w head tail =>
      have hhead := head.head_ne_quote (w ++ '"' :: t)
      rw [← List.append_assoc, heq] at hhead
      exact hhead rfl
  rw [readString]
  · refine row.readBasic_append t ?_
    rw [List.length_append]
    omega
  · exact hquotes

theorem readString_literal {s : Text} (hs : ∀ c ∈ s, isLiteralChar c = true) {t : Text}
    (ht : t.head? ≠ some '\'') : readString ('\'' :: (s ++ '\'' :: t)) = some (s, t) := by
  have hquotes : ∀ u, s ++ '\'' :: t ≠ '\'' :: '\'' :: u := by
    intro u heq
    cases s with
    | nil => exact ht (congrArg List.head? (List.tail_eq_of_cons_eq heq))
    | cons c s =>
      have hc := hs c (List.mem_cons_self ..)
      rw [List.head_eq_of_cons_eq heq] at hc
      cases hc
  rw [readString]
  · exact readLiteral_append hs t
  · exact hquotes

/-- A string between triple quotes is read by the reader that its quotes call for. -/
theorem MultiReader.read_form {quote : Char} {form : Char → Text → Prop}
    {read : Nat → Text → Option (Text × Text)} (reader : MultiReader quote form read) {s w : Text}
    (h : MultiForm quote form 0 s w) {t : Text} (ht : t.head? ≠ some quote) {n : Nat}
    (hn : w.length < n) : read n (w ++ quote :: quote :: quote :: t) = some (s, t) :=
  reader.read_append h ht (by omega)

theorem StringForm.readString_append {s w : Text} (h : StringForm s w) {t : Text}
    (hdouble : t.head? ≠ some '"') (hsingle : t.head? ≠ some '\'') :
    readString (w ++ t) = some (s, t) := by
  cases h with
  | basic row =>
    rw [List.cons_append, List.cons_append, List.append_assoc, List.singleton_append]
    exact row.readString_append hdouble
  | literal plain =>
    rw [List.cons_append, List.cons_append, List.append_assoc, List.singleton_append]
    exact readString_literal plain hsingle
  | @multiBasic w lead form opening =>
    have hbody : ['"', '"', '"'] ++ lead ++ w ++ ['"', '"', '"'] ++ t =
        '"' :: '"' :: '"' :: (lead ++ (w ++ '"' :: '"' :: '"' :: t)) := by
      simp only [List.append_assoc, List.cons_append, List.nil_append]
    rw [hbody, readString, opening.dropNewline_append rfl]
    refine multiReader_readMultiBasic.read_form form hdouble ?_
    simp only [List.length_append]
    omega
  | @multiLiteral w lead form opening =>
    have hbody : ['\'', '\'', '\''] ++ lead ++ w ++ ['\'', '\'', '\''] ++ t =
        '\'' :: '\'' :: '\'' :: (lead ++ (w ++ '\'' :: '\'' :: '\'' :: t)) := by
      simp only [List.append_assoc, List.cons_append, List.nil_append]
    rw [hbody, readString, opening.dropNewline_append rfl]
    refine multiReader_readMultiLiteral.read_form form hsingle ?_
    simp only [List.length_append]
    omega

theorem StringForm.exists_cons {s w : Text} (h : StringForm s w) :
    ∃ c u, w = c :: u ∧ (c = '"' ∨ c = '\'') := by
  cases h with
  | basic => exact ⟨_, _, rfl, Or.inl rfl⟩
  | literal => exact ⟨_, _, rfl, Or.inr rfl⟩
  | multiBasic => exact ⟨_, _, rfl, Or.inl rfl⟩
  | multiLiteral => exact ⟨_, _, rfl, Or.inr rfl⟩

end ShellLine.Toml
