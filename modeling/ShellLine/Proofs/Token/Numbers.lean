import Mathlib.Data.List.Induction
import Mathlib.Data.Nat.Digits.Defs
import ShellLine.Proofs.Token.Excerpt
import ShellLine.Proofs.Token.Slices

/-! # Numbers in front of operators

A run of digits at the start of a token is the number of an operator if `>` follows it
and the number fits 32 bits, however many zeros lead. The operator is then the longest
of its forms that the text starts with. A number that is too large is a word of its
own in front of a bare operator, and digits that no `>` follows start a word. The
forms are a relation between operators and texts, and the number is a sum of digits by
their places, so neither the scan of digits nor its running value is part of the
statement. -/

namespace ShellLine

/-! ### The number that digits stand for -/

/-- The value of decimal digits, each multiplied by the power of ten of its place. -/
def decimal (digits : Text) : Nat := Nat.ofDigits 10 (digits.reverse.map Text.digitValue)

theorem decimal_append (digits : Text) (c : Char) :
    decimal (digits ++ [c]) = Text.digitValue c + 10 * decimal digits := by
  rw [decimal, List.reverse_append, List.reverse_singleton, List.singleton_append, List.map_cons,
    Nat.ofDigits_cons]
  rfl

theorem Text.digitsValue_eq_decimal (digits : Text) : digitsValue digits = decimal digits := by
  induction digits using List.reverseRecOn with
  | nil => rfl
  | append_singleton digits c ih =>
    have hlast : digitsValue (digits ++ [c]) = 10 * digitsValue digits + digitValue c := by
      rw [digitsValue, List.foldl_append]
      rfl
    rw [hlast, decimal_append, ih]
    omega

/-- `Denotes digits n?`: the digits, if there are any and they fit 32 bits, stand for `n?`. -/
def Denotes (digits : Text) (n? : Option UInt32) : Prop :=
  ∀ n, n? = some n ↔ digits ≠ [] ∧ n.toNat = decimal digits

theorem denotes_fdOfDigits? (digits : Text) : Denotes digits (fdOfDigits? digits) := by
  intro n
  rw [fdOfDigits?, Text.digitsValue_eq_decimal]
  split
  · rename_i h
    have hvalue : (UInt32.ofNat (decimal digits)).toNat = decimal digits :=
      UInt32.toNat_ofNat_of_lt' h.2
    rw [Option.some.injEq, ← UInt32.toNat_inj, hvalue]
    exact ⟨fun hn => ⟨h.1, hn.symm⟩, fun hn => hn.2.symm⟩
  · rename_i h
    constructor
    · intro hn
      cases hn
    · rintro ⟨hne, hn⟩
      refine absurd ⟨hne, ?_⟩ h
      rw [← hn]
      exact n.toNat_lt_size

/-! ### Forms of operators -/

/-- How operators are written that have the number `d` in front. -/
inductive NumberedForm (d : Text) : FdForm → Text → Prop
  | write : NumberedForm d .write (d ++ ['>'])
  | append : NumberedForm d .append (d ++ ['>', '>'])
  | dup {e : Text} {target : Option UInt32} (digits : ∀ c ∈ e, c.isDigit = true)
      (denotes : Denotes e target) : NumberedForm d (.dup target) (d ++ '>' :: '&' :: e)

/-- How operators with `>` are written that have no number. -/
inductive BareForm : Operator → Text → Prop
  | greater : BareForm .greater ['>']
  | greaterGreater : BareForm .greaterGreater ['>', '>']

/-- Of all forms that the text `s` starts with, `t` is the longest, and it is one of `a`. -/
structure LongestForm {α : Type} (form : α → Text → Prop) (s : Text) (a : α) (t : Text) : Prop where
  written : form a t
  front : t <+: s
  longest : ∀ b u, form b u → u <+: s → u.length ≤ t.length

/-- Digits at the front of a text are among the digits that it starts with. -/
theorem length_le_of_digits {e r : Text} (digits : ∀ c ∈ e, c.isDigit = true) (front : e <+: r) :
    e.length ≤ (r.takeWhile Char.isDigit).length := by
  obtain ⟨more, rfl⟩ := front
  rw [List.takeWhile_append_of_pos digits, List.length_append]
  omega

theorem longest_append (d r : Text) :
    LongestForm (NumberedForm d) (d ++ '>' :: '>' :: r) .append (d ++ ['>', '>']) := by
  refine ⟨.append, ⟨r, by simp⟩, ?_⟩
  intro form u hform front
  cases hform with
  | write => simp
  | append => exact Nat.le_refl _
  | dup digits denotes =>
    -- the text goes on with a second sign where this form has an ampersand
    simp [List.prefix_append_right_inj] at front

theorem longest_dup (d r : Text) :
    LongestForm (NumberedForm d) (d ++ '>' :: '&' :: r)
      (.dup (fdOfDigits? (r.takeWhile Char.isDigit)))
      (d ++ '>' :: '&' :: r.takeWhile Char.isDigit) := by
  have hdigits := List.all_eq_true.1 (List.all_takeWhile (l := r) (p := Char.isDigit))
  refine ⟨.dup hdigits (denotes_fdOfDigits? _), ?_, ?_⟩
  · refine ⟨r.dropWhile Char.isDigit, ?_⟩
    simp
  · intro form u hform front
    cases hform with
    | write => simp
    | append => simp [List.prefix_append_right_inj] at front
    | dup digits denotes =>
      have hfront := (List.prefix_append_right_inj d).1 front
      simp only [List.cons_prefix_cons, true_and] at hfront
      have hle := length_le_of_digits digits hfront
      simp only [List.length_append, List.length_cons]
      omega

theorem longest_write {d r : Text} (hgreater : r.head? ≠ some '>') (hamp : r.head? ≠ some '&') :
    LongestForm (NumberedForm d) (d ++ '>' :: r) .write (d ++ ['>']) := by
  refine ⟨.write, ⟨r, by simp⟩, ?_⟩
  intro form u hform front
  cases hform with
  | write => exact Nat.le_refl _
  | append =>
    obtain ⟨more, hmore⟩ := (List.prefix_append_right_inj d).1 front
    obtain rfl : '>' :: more = r := by simpa using hmore
    exact absurd rfl hgreater
  | dup digits denotes =>
    obtain ⟨more, hmore⟩ := (List.prefix_append_right_inj d).1 front
    obtain ⟨e, rfl⟩ : ∃ e, '&' :: e = r := ⟨_, by simpa using hmore⟩
    exact absurd rfl hamp

/-! ### A run of digits and the token it starts -/

/-- All digits at the start of a token, and the text behind them. -/
structure DigitsAhead (d rest : Text) : Prop where
  nonempty : d ≠ []
  digits : ∀ c ∈ d, c.isDigit = true
  maximal : ∀ c ∈ rest.head?, c.isDigit = false

/-- What the digits `d` are, and what is read where they start: the token `t`, and the tokens `ts`
behind it. -/
structure ReadsDigits (d rest : Text) (t : Token) (ts : List Token) : Prop where
  operator : rest.head? = some '>' → decimal d < 2 ^ 32 →
    ∃ fd form, fd.toNat = decimal d ∧ t.kind = .operator (.numbered fd form) ∧
      LongestForm (NumberedForm d) (d ++ rest) form t.text
  too_large : rest.head? = some '>' → 2 ^ 32 ≤ decimal d →
    t.kind = .word ∧ t.text = d ∧ ∃ u op, ts.head? = some u ∧ u.span.start = t.span.stop ∧
      u.kind = .operator op ∧ LongestForm BareForm rest op u.text
  word : rest.head? ≠ some '>' → t.kind = .word ∧ d <+: t.text

namespace DigitsAhead

variable {d rest : Text}

theorem solid (h : DigitsAhead d rest) : StartsSolid (d ++ rest) := by
  refine (startsSolid_append h.nonempty).2 ?_
  intro c hc
  have hdigit := h.digits c (List.mem_of_mem_head? hc)
  have hblank : c ∉ [' ', '\t', '\r', '\n'] := not_mem_of_any_false rfl hdigit
  simp only [List.mem_cons, List.not_mem_nil, or_false, not_or] at hblank
  simp [isBlank, hblank]

theorem takeWhile_eq (h : DigitsAhead d rest) : (d ++ rest).takeWhile Char.isDigit = d :=
  Text.takeWhile_append_of_stop h.digits h.maximal

theorem read_eq (h : DigitsAhead d rest) :
    Lexeme.read (d ++ rest) =
      (Lexeme.numbered? (d ++ rest)).getD (Lexeme.word (d ++ rest)) := by
  cases d with
  | nil => exact absurd rfl h.nonempty
  | cons c d =>
    have hdigit := h.digits c (List.mem_cons_self ..)
    have hsigns : c ∉ ['|', '<', '>'] := not_mem_of_any_false rfl hdigit
    have hamp : c ∉ ['&'] := not_mem_of_any_false rfl hdigit
    refine Lexeme.read_eq_getD hsigns ?_
    rintro ⟨hc, _⟩
    exact hamp (List.mem_singleton.2 hc)

theorem word_eq (h : DigitsAhead d rest) :
    Lexeme.word (d ++ rest) =
      ⟨.word, d ++ (scanWord .bare rest).word, (scanWord .bare rest).rest⟩ := by
  have hscan := scanWord_keeps (fun c hc => Quoting.keeps_bare_of_isDigit (h.digits c hc)) rest
  rw [Lexeme.word, hscan]
  rfl

theorem numbered?_eq_none (h : DigitsAhead d rest) (hgreater : rest.head? ≠ some '>') :
    Lexeme.numbered? (d ++ rest) = none := by
  cases hn : Lexeme.numbered? (d ++ rest) with
  | none => rfl
  | some l =>
    -- an operator starts with all digits at the front, so its sign would be the head of `rest`
    obtain ⟨digits, behind, hs, hdigits⟩ := Lexeme.numbered?_front hn
    have htake := h.takeWhile_eq
    rw [hs, Text.takeWhile_append_of_stop hdigits (Lexeme.stop_greater behind)] at htake
    rw [htake] at hs
    obtain rfl := List.append_cancel_left hs
    exact absurd rfl hgreater

/-! ### The three cases -/

theorem read_operator {r : Text} (h : DigitsAhead d ('>' :: r)) (small : decimal d < 2 ^ 32) :
    ∃ fd form, fd.toNat = decimal d ∧
      (Lexeme.read (d ++ '>' :: r)).kind = .operator (.numbered fd form) ∧
      LongestForm (NumberedForm d) (d ++ '>' :: r) form (Lexeme.read (d ++ '>' :: r)).text := by
  obtain ⟨fd, hfd⟩ : ∃ fd, fdOfDigits? d = some fd := by
    refine ⟨UInt32.ofNat (decimal d), (denotes_fdOfDigits? d _).2 ⟨h.nonempty, ?_⟩⟩
    exact UInt32.toNat_ofNat_of_lt' small
  have hvalue : fd.toNat = decimal d := ((denotes_fdOfDigits? d fd).1 hfd).2
  have hread := h.read_eq
  rw [Lexeme.numbered?_digits h.digits, hfd, Option.map_some, Option.getD_some] at hread
  rw [hread]
  split
  · exact ⟨fd, _, hvalue, rfl, longest_append d _⟩
  · rename_i r
    have htext : d ++ ['>', '&'] ++ r.takeWhile Char.isDigit =
        d ++ '>' :: '&' :: r.takeWhile Char.isDigit := by simp
    refine ⟨fd, _, hvalue, rfl, ?_⟩
    rw [htext]
    exact longest_dup d r
  · rename_i r hgreater hamp
    refine ⟨fd, _, hvalue, rfl, longest_write ?_ ?_⟩
    · intro hhead
      obtain ⟨more, hmore⟩ := List.head?_eq_some_iff.1 hhead
      exact hgreater more hmore
    · intro hhead
      obtain ⟨more, hmore⟩ := List.head?_eq_some_iff.1 hhead
      exact hamp more hmore

theorem read_too_large {r : Text} (h : DigitsAhead d ('>' :: r)) (large : 2 ^ 32 ≤ decimal d) :
    Lexeme.read (d ++ '>' :: r) = ⟨.word, d, '>' :: r⟩ := by
  have hfd : fdOfDigits? d = none := by
    refine if_neg ?_
    rintro ⟨_, hsize⟩
    rw [Text.digitsValue_eq_decimal] at hsize
    exact absurd hsize (Nat.not_lt.2 large)
  -- without an operator the digits are scanned once more, and the word stops at the sign
  rw [h.read_eq, Lexeme.numbered?_digits h.digits, hfd, Option.map_none, Option.getD_none,
    h.word_eq, scanWord_stop rfl, List.append_nil]

theorem read_word (h : DigitsAhead d rest) (hgreater : rest.head? ≠ some '>') :
    (Lexeme.read (d ++ rest)).kind = .word ∧ d <+: (Lexeme.read (d ++ rest)).text := by
  rw [h.read_eq, h.numbered?_eq_none hgreater, Option.getD_none, h.word_eq]
  exact ⟨rfl, List.prefix_append ..⟩

end DigitsAhead

theorem read_greater (r : Text) :
    ∃ op, (Lexeme.read ('>' :: r)).kind = .operator op ∧
      LongestForm BareForm ('>' :: r) op (Lexeme.read ('>' :: r)).text := by
  by_cases hr : r.head? = some '>'
  · obtain ⟨more, rfl⟩ := List.head?_eq_some_iff.1 hr
    refine ⟨.greaterGreater, rfl, .greaterGreater, ⟨more, rfl⟩, ?_⟩
    intro op u hform _
    cases hform with
    | greater => exact Nat.le_succ 1
    | greaterGreater => exact Nat.le_refl 2
  · rw [Lexeme.read_greater_alone hr]
    refine ⟨.greater, rfl, .greater, ⟨r, rfl⟩, ?_⟩
    intro op u hform front
    cases hform with
    | greater => exact Nat.le_refl 1
    | greaterGreater =>
      obtain ⟨more, hmore⟩ := front
      obtain rfl := (List.cons.inj hmore).2
      exact absurd rfl hr

/-! ### Tokens of lines -/

theorem DigitsAhead.tokens {d rest : Text} (h : DigitsAhead d rest) (i : Nat) (gap : Text)
    (blank : gap.all isBlank = true) :
    ∃ t ts, Cursor.tokens ⟨i, gap ++ (d ++ rest)⟩ = t :: ts ∧
      t.span.start = i + Text.byteSize gap ∧ ReadsDigits d rest t ts := by
  have hne : d ++ rest ≠ [] := by simp [h.nonempty]
  refine ⟨_, _, Cursor.tokens_append blank hne h.solid, rfl, ?_, ?_, ?_⟩
  · intro hgreater small
    obtain ⟨r, rfl⟩ := List.head?_eq_some_iff.1 hgreater
    exact h.read_operator small
  · intro hgreater large
    obtain ⟨r, rfl⟩ := List.head?_eq_some_iff.1 hgreater
    have hread := h.read_too_large large
    obtain ⟨op, hkind, hform⟩ := read_greater r
    have hnext := @Cursor.tokens_append (i + Text.byteSize gap + Text.byteSize d) [] ('>' :: r) rfl
      (List.cons_ne_nil '>' r) (startsSolid_cons.2 rfl)
    rw [hread]
    refine ⟨rfl, rfl, (Lexeme.read ('>' :: r)).tokenAt _, op, ?_, rfl, hkind, hform⟩
    exact congrArg List.head? hnext
  · intro hgreater
    exact h.read_word hgreater

/-- A token that starts where the text `s` starts is read from it. -/
theorem tokens_of_start {before s : Text} {front ts : List Token} {t : Token} (hs : s ≠ [])
    (hlex : lex (before ++ s) = front ++ t :: ts) (hstart : t.span.start = Text.byteSize before) :
    Cursor.tokens ⟨t.span.start, s⟩ = t :: ts := by
  have ht : t ∈ lex (before ++ s) := by simp [hlex]
  have hkind : t.kind ≠ .endOfInput := by
    intro hk
    obtain ⟨a, after, ha, hspan, hread⟩ := (cut_lex (before ++ s)).mem ht
    have hsize : Text.byteSize before = Text.byteSize a := by
      rw [← hstart, hspan, Nat.zero_add]
    have hrest := Text.eq_of_append_eq_append ha hsize
    rw [← hrest, hk] at hread
    have hend : (Lexeme.read s).kind = .endOfInput := by rw [hread]
    exact hs (Lexeme.read_kind_eq_end_iff.1 hend)
  -- the line is cut in front of `t`, and the place of `t` says that `s` is left behind the blanks
  obtain ⟨a, b, hab, hcut⟩ := (cut_lex (before ++ s)).drop hlex (List.cons_ne_nil t ts)
  obtain ⟨gap, r, rfl, hgap, hcut⟩ := hcut.drop_gap hkind
  rw [← List.append_assoc] at hab
  have hsize : Text.byteSize before = Text.byteSize (a ++ gap) := by
    rw [← hstart, hgap, Text.byteSize_append, Nat.zero_add]
  rw [Text.eq_of_append_eq_append hab hsize, hgap]
  exact hcut.eq_tokens.symm

/-- A run of digits is the number of an operator, a word in front of an operator, or the start of a
word: wherever a cursor meets it behind blanks, and wherever a token of a line starts with it. -/
theorem readsDigits_tokens {d rest : Text} (h : DigitsAhead d rest) :
    (∀ i gap, gap.all isBlank = true →
      ∃ t ts, Cursor.tokens ⟨i, gap ++ (d ++ rest)⟩ = t :: ts ∧
        t.span.start = i + Text.byteSize gap ∧ ReadsDigits d rest t ts) ∧
    ∀ before front t ts, lex (before ++ (d ++ rest)) = front ++ t :: ts →
      t.span.start = Text.byteSize before → ReadsDigits d rest t ts := by
  refine ⟨h.tokens, ?_⟩
  intro before front t ts hlex hstart
  have hne : d ++ rest ≠ [] := by simp [h.nonempty]
  have htokens := tokens_of_start hne hlex hstart
  obtain ⟨u, us, hcursor, _, hreads⟩ := h.tokens t.span.start [] rfl
  rw [List.nil_append, htokens] at hcursor
  obtain ⟨rfl, rfl⟩ := List.cons.inj hcursor
  exact hreads

/-- The largest number that fits, behind zeros, and behind the operator a number that does not. -/
theorem readsDigits_tokens_at_bound :
    let d : Text := "0004294967295".toList
    let rest : Text := ">&4294967296|".toList
    let t : Token := ⟨.operator (.numbered 4294967295 (.dup none)),
      "0004294967295>&4294967296".toList, ⟨5, 30⟩⟩
    let ts : List Token := [⟨.pipe, ['|'], ⟨30, 31⟩⟩, ⟨.endOfInput, [], ⟨31, 31⟩⟩]
    DigitsAhead d rest ∧
      ([' '].all isBlank = true ∧ ∃ u us, Cursor.tokens ⟨7, [' '] ++ (d ++ rest)⟩ = u :: us ∧
        u.span.start = 7 + Text.byteSize [' '] ∧ ReadsDigits d rest u us) ∧
      lex ("echo ".toList ++ (d ++ rest)) = [⟨.word, "echo".toList, ⟨0, 4⟩⟩] ++ t :: ts ∧
      t.span.start = Text.byteSize "echo ".toList ∧ ReadsDigits d rest t ts ∧
      rest.head? = some '>' ∧ decimal d < 2 ^ 32 ∧
      ∃ fd form, fd.toNat = decimal d ∧ t.kind = .operator (.numbered fd form) ∧
        LongestForm (NumberedForm d) (d ++ rest) form t.text := by
  intro d rest t ts
  have h : DigitsAhead d rest := by
    refine ⟨List.cons_ne_nil _ _, List.all_eq_true.1 rfl, ?_⟩
    rintro _ ⟨⟩
    rfl
  have hlex : lex ("echo ".toList ++ (d ++ rest)) =
      [⟨.word, "echo".toList, ⟨0, 4⟩⟩] ++ t :: ts := by decide +kernel
  have small : decimal d < 2 ^ 32 := by
    rw [← Text.digitsValue_eq_decimal]
    decide
  obtain ⟨hcursor, hline⟩ := readsDigits_tokens h
  have hreads := hline "echo ".toList _ t ts hlex (by decide)
  exact ⟨h, ⟨by decide, hcursor 7 [' '] (by decide)⟩, hlex, by decide, hreads, by decide, small,
    hreads.operator (by decide) small⟩

end ShellLine
