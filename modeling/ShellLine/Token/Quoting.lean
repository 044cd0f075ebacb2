import ShellLine.Text.Basic

/-! # Quoting state of a word

While a word is scanned, one of five states holds: outside quotes, inside single
or double quotes, or just behind a backslash in one of the two places where a
backslash escapes. A word ends only outside quotes. -/

namespace ShellLine

def isBlank (c : Char) : Bool := c == ' ' || c == '\t' || c == '\r' || c == '\n'

/-- Where the scan of a word stands. -/
inductive Quoting
  /-- Outside quotes. -/
  | bare
  /-- Between single quotes. -/
  | single
  /-- Between double quotes. -/
  | double
  /-- Behind a backslash outside quotes. -/
  | escaped
  /-- Behind a backslash between double quotes. -/
  | escapedDouble
  deriving DecidableEq, Repr

namespace Quoting

def step : Quoting → Char → Quoting
  | bare, c =>
    if c = '\'' then single else if c = '"' then double else if c = '\\' then escaped else bare
  | single, c => if c = '\'' then bare else single
  | double, c => if c = '"' then bare else if c = '\\' then escapedDouble else double
  | escaped, _ => bare
  | escapedDouble, _ => double

def steps (q : Quoting) (s : Text) : Quoting := s.foldl step q

@[simp] theorem steps_cons (q : Quoting) (c : Char) (s : Text) :
    q.steps (c :: s) = (q.step c).steps s := rfl

theorem steps_append (q : Quoting) (s t : Text) : q.steps (s ++ t) = (q.steps s).steps t := by
  simp [steps, List.foldl_append]

end Quoting

/-! ### The end of a word -/

/-- Whether a word ends in front of `c`, which `after` follows: at a blank, at `|`, `<` or `>`,
and at `&` if `>` follows it. -/
def endsWord (c : Char) (after : Text) : Bool :=
  isBlank c || c == '|' || c == '<' || c == '>' || (c == '&' && after.head? == some '>')

/-- A word cut from the text behind it, and the state in which the cut was made. -/
structure WordScan where
  word : Text
  rest : Text
  ended : Quoting
  deriving DecidableEq, Repr

namespace WordScan

/-- The scan with one more character in front of its word. -/
def cons (c : Char) (w : WordScan) : WordScan := { w with word := c :: w.word }

@[simp] theorem cons_word (c : Char) (w : WordScan) : (w.cons c).word = c :: w.word := rfl

@[simp] theorem cons_rest (c : Char) (w : WordScan) : (w.cons c).rest = w.rest := rfl

@[simp] theorem cons_ended (c : Char) (w : WordScan) : (w.cons c).ended = w.ended := rfl

end WordScan

/-- Cuts the word at the front of a text: up to the first character outside quotes that ends a
word, or up to the end of the text. -/
def scanWord : Quoting → Text → WordScan
  | q, [] => ⟨[], [], q⟩
  | q, c :: s =>
    if q = .bare ∧ endsWord c s then ⟨[], c :: s, q⟩ else (scanWord (q.step c) s).cons c

/-- The word and the rest make up the text. -/
theorem scanWord_append (q : Quoting) (s : Text) :
    (scanWord q s).word ++ (scanWord q s).rest = s := by
  induction s generalizing q with
  | nil => rfl
  | cons c s ih =>
    simp only [scanWord]
    split
    · rfl
    · simp [ih]

/-- The final state is the one behind the word. -/
theorem scanWord_ended (q : Quoting) (s : Text) :
    (scanWord q s).ended = q.steps (scanWord q s).word := by
  induction s generalizing q with
  | nil => rfl
  | cons c s ih =>
    simp only [scanWord]
    split
    · rfl
    · simp [ih]

/-- What is left is empty, or the scan stands outside quotes in front of a character that ends a
word. -/
theorem scanWord_rest (q : Quoting) (s : Text) :
    (scanWord q s).rest = [] ∨
      (scanWord q s).ended = .bare ∧
        ∃ c r, (scanWord q s).rest = c :: r ∧ endsWord c r = true := by
  induction s generalizing q with
  | nil => exact Or.inl rfl
  | cons c s ih =>
    simp only [scanWord]
    split
    · rename_i h
      exact Or.inr ⟨h.1, c, s, rfl, h.2⟩
    · exact ih (q.step c)

/-- A word starts at every character that does not end one. -/
theorem scanWord_word_ne_nil {c : Char} {s : Text} (h : endsWord c s = false) :
    (scanWord .bare (c :: s)).word ≠ [] := by
  simp [scanWord, h]

end ShellLine
