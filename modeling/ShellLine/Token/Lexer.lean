import ShellLine.Token
import ShellLine.Token.Quoting

/-! # From text to tokens

`Lexeme.read` cuts one token from a text that does not start with a blank, and a
`Cursor` does so again and again, keeping count of the bytes it has passed. Each
cut takes at least one character, so every text has finitely many tokens, and the
last of them is the end of the line. -/

namespace ShellLine

/-! ### One token -/

/-- A token without its place, and the text behind it. -/
structure Lexeme where
  kind : Token.Kind
  text : Text
  rest : Text
  deriving DecidableEq, Repr

/-- The number that a run of digits gives, if there is a digit and the number fits 32 bits. -/
def fdOfDigits? (digits : Text) : Option UInt32 :=
  if digits ≠ [] ∧ Text.digitsValue digits < UInt32.size then
    some (UInt32.ofNat (Text.digitsValue digits))
  else none

namespace Lexeme

/-- The operator `N>`, `N>>` or `N>&M` at the front of the text. The longest form wins, and the
digits behind `&` belong to the operator. There is none unless the number fits 32 bits. -/
def numbered? (s : Text) : Option Lexeme :=
  let digits := s.takeWhile Char.isDigit
  match fdOfDigits? digits, s.dropWhile Char.isDigit with
  | some fd, '>' :: '>' :: rest =>
    some ⟨.operator (.numbered fd .append), digits ++ ['>', '>'], rest⟩
  | some fd, '>' :: '&' :: rest =>
    let target := rest.takeWhile Char.isDigit
    some ⟨.operator (.numbered fd (.dup (fdOfDigits? target))), digits ++ ['>', '&'] ++ target,
      rest.dropWhile Char.isDigit⟩
  | some fd, '>' :: rest => some ⟨.operator (.numbered fd .write), digits ++ ['>'], rest⟩
  | _, _ => none

def word (s : Text) : Lexeme :=
  ⟨.word, (scanWord .bare s).word, (scanWord .bare s).rest⟩

/-- The token at the front of a text that does not start with a blank. -/
def read : Text → Lexeme
  | [] => ⟨.endOfInput, [], []⟩
  | '|' :: s => ⟨.pipe, ['|'], s⟩
  | '<' :: s => ⟨.operator .less, ['<'], s⟩
  | '>' :: '>' :: s => ⟨.operator .greaterGreater, ['>', '>'], s⟩
  | '>' :: s => ⟨.operator .greater, ['>'], s⟩
  | '&' :: '>' :: s => ⟨.operator .ampGreater, ['&', '>'], s⟩
  | c :: s => (numbered? (c :: s)).getD (word (c :: s))

theorem numbered?_append {s : Text} {l : Lexeme} (h : numbered? s = some l) :
    l.text ++ l.rest = s := by
  simp only [numbered?] at h
  have hs := List.takeWhile_append_dropWhile (p := Char.isDigit) (l := s)
  split at h
  · rename_i hd
    cases h
    simp only [List.append_assoc, List.cons_append, List.nil_append, ← hd, hs]
  · rename_i rest hd
    cases h
    simp only [List.append_assoc, List.cons_append, List.nil_append,
      List.takeWhile_append_dropWhile, ← hd, hs]
  · rename_i hd
    cases h
    simp only [List.append_assoc, List.cons_append, List.nil_append, ← hd, hs]
  · cases h

theorem numbered?_text_ne_nil {s : Text} {l : Lexeme} (h : numbered? s = some l) :
    l.text ≠ [] := by
  simp only [numbered?] at h
  split at h <;> cases h <;> simp

/-- The token and the rest make up the text. -/
theorem read_append (s : Text) : (read s).text ++ (read s).rest = s := by
  unfold read
  split
  case h_7 c s _ _ _ _ _ =>
    cases h : numbered? (c :: s) with
    | none => exact scanWord_append .bare (c :: s)
    | some l => exact numbered?_append h
  all_goals rfl

/-- Only the empty text has an end token in front. -/
theorem read_kind_eq_end_iff {s : Text} : (read s).kind = .endOfInput ↔ s = [] := by
  unfold read
  split
  case h_7 c s _ _ _ _ _ =>
    cases h : numbered? (c :: s) with
    | none => simp [word]
    | some l =>
      simp only [Option.getD_some, reduceCtorEq, iff_false]
      simp only [numbered?] at h
      split at h <;> cases h <;> simp
  all_goals simp

/-- A character that no blank is starts a token that is not empty. -/
theorem read_text_ne_nil {c : Char} {s : Text} (hc : isBlank c = false) :
    (read (c :: s)).text ≠ [] := by
  generalize hcs : c :: s = t
  unfold read
  split
  case h_1 => simp at hcs
  case h_7 d r h1 h2 _ h4 h5 =>
    cases hcs
    have hword : (word (c :: s)).text ≠ [] := by
      apply scanWord_word_ne_nil
      have e1 : (c == '|') = false := by simpa using h1
      have e2 : (c == '<') = false := by simpa using h2
      have e3 : (c == '>') = false := by simpa using h4
      have e4 : (c == '&' && s.head? == some '>') = false := by
        cases s with
        | nil => simp
        | cons d r =>
          by_cases hd : d = '>'
          · subst hd
            have : (c == '&') = false := by simpa using fun h => h5 r (by rw [h])
            simp [this]
          · simp [hd]
      rw [endsWord, hc, e1, e2, e3, e4]
      rfl
    cases h : numbered? (c :: s) with
    | none => exact hword
    | some l => exact numbered?_text_ne_nil h
  all_goals simp

end Lexeme

/-! ### All tokens -/

/-- What is still to be read, and how many bytes were read before it. -/
structure Cursor where
  offset : Nat
  rest : Text
  deriving DecidableEq, Repr

namespace Cursor

/-- The next token and the cursor behind it. At the end of the text the token is the end of the
line, and stays so. -/
def next (c : Cursor) : Token × Cursor :=
  let start := c.offset + Text.byteSize (c.rest.takeWhile isBlank)
  let lexeme := Lexeme.read (c.rest.dropWhile isBlank)
  let stop := start + Text.byteSize lexeme.text
  (⟨lexeme.kind, lexeme.text, ⟨start, stop⟩⟩, ⟨stop, lexeme.rest⟩)

/-- Every token but the end of the line shortens what is to be read. -/
theorem next_rest_lt {c : Cursor} (h : c.next.1.kind ≠ .endOfInput) :
    c.next.2.rest.length < c.rest.length := by
  have hsplit := List.takeWhile_append_dropWhile (p := isBlank) (l := c.rest)
  have hread := Lexeme.read_append (c.rest.dropWhile isBlank)
  have hlen1 := congrArg List.length hsplit
  have hlen2 := congrArg List.length hread
  simp only [List.length_append] at hlen1 hlen2
  have hpos : 0 < (Lexeme.read (c.rest.dropWhile isBlank)).text.length := by
    cases hd : c.rest.dropWhile isBlank with
    | nil =>
      refine absurd ?_ h
      simp only [next, hd]
      rfl
    | cons d s =>
      have hb : isBlank d = false := by
        have := List.head_dropWhile_not isBlank (l := c.rest) (by simp [hd])
        simpa [hd] using this
      exact List.length_pos_iff.2 (Lexeme.read_text_ne_nil hb)
  simp only [next]
  omega

/-- The tokens up to and with the end of the line. -/
def tokens (c : Cursor) : List Token :=
  match _h : c.next with
  | (token, c') => if _hk : token.kind = .endOfInput then [token] else token :: c'.tokens
termination_by c.rest.length
decreasing_by
  have := next_rest_lt (c := c) (by rw [_h]; exact _hk)
  rwa [_h] at this

theorem tokens_eq (c : Cursor) :
    c.tokens =
      if c.next.1.kind = .endOfInput then [c.next.1] else c.next.1 :: c.next.2.tokens := by
  rw [tokens]
  split
  rename_i h
  rw [h]
  simp

/-- The next `n` tokens; the end of the line repeats. -/
def take : Nat → Cursor → List Token
  | 0, _ => []
  | n + 1, c => c.next.1 :: take n c.next.2

end Cursor

def lex (s : Text) : List Token := Cursor.tokens ⟨0, s⟩

end ShellLine
