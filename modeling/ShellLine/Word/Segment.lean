import ShellLine.Text.Basic

/-! # Segments of a raw word

A raw word still holds its quotes and backslashes. Outside single quotes it is
read item by item: a character, a backslash pair, a reference to a variable, or a
dollar sign that starts no reference. A segment is one item outside quotes, or a
whole quoted string. Every item and every segment remembers how it was written,
so the sources of all segments make up the raw word again. -/

namespace ShellLine

def isNameStart (c : Char) : Bool := c.isAlpha || c == '_'

def isNameChar (c : Char) : Bool := c.isAlphanum || c == '_'

theorem isNameChar_of_isNameStart {c : Char} (h : isNameStart c = true) : isNameChar c = true := by
  simp only [isNameStart, isNameChar, Char.isAlphanum, Bool.or_eq_true] at h ⊢
  rcases h with h | h
  · exact Or.inl (Or.inl h)
  · exact Or.inr h

/-- How a reference is written. -/
inductive ReferenceForm
  /-- `$name`. -/
  | plain
  /-- `${name}`. -/
  | braced
  /-- `${name` up to the end of the word. -/
  | unclosed
  deriving DecidableEq, Repr

/-- What is read at once outside single quotes. -/
inductive Item
  /-- A character that stands for itself. -/
  | char (c : Char)
  /-- A backslash and the character behind it. -/
  | pair (c : Char)
  /-- A backslash at the end of the word. -/
  | backslash
  /-- A dollar sign that starts no reference. -/
  | dollar
  /-- A reference to a variable. -/
  | reference (name : Text) (form : ReferenceForm)
  deriving DecidableEq, Repr

namespace Item

def source : Item → Text
  | char c => [c]
  | pair c => ['\\', c]
  | backslash => ['\\']
  | dollar => ['$']
  | reference x .plain => '$' :: x
  | reference x .braced => '$' :: '{' :: x ++ ['}']
  | reference x .unclosed => '$' :: '{' :: x

/-- Reads what follows a dollar sign. A name in braces goes up to the first closing brace, or
to the end of the word; a plain name is as long as possible. -/
def readDollar : Text → Item × Text
  | [] => (dollar, [])
  | c :: s =>
    if c = '{' then
      match Text.splitAtFirst '}' s with
      | some (name, rest) => (reference name .braced, rest)
      | none => (reference s .unclosed, [])
    else if isNameStart c then
      (reference (c :: s.takeWhile isNameChar) .plain, s.dropWhile isNameChar)
    else (dollar, c :: s)

/-- Reads the item that starts with `c`, in front of `s`. -/
def read (c : Char) (s : Text) : Item × Text :=
  if c = '\\' then
    match s with
    | [] => (backslash, [])
    | d :: rest => (pair d, rest)
  else if c = '$' then readDollar s
  else (char c, s)

theorem readDollar_append (s : Text) :
    (readDollar s).1.source ++ (readDollar s).2 = '$' :: s := by
  unfold readDollar
  split
  · rfl
  · rename_i c s
    split
    · rename_i hc
      subst hc
      split
      · rename_i h
        simp [source, Text.eq_of_splitAtFirst h]
      · simp [source]
    · split
      · simp [source]
      · rfl

/-- The item and the rest make up the text. -/
theorem read_append (c : Char) (s : Text) : (read c s).1.source ++ (read c s).2 = c :: s := by
  unfold read
  split
  · rename_i hc
    subst hc
    cases s <;> rfl
  · split
    · rename_i hc
      subst hc
      exact readDollar_append s
    · rfl

theorem source_ne_nil (i : Item) : i.source ≠ [] := by
  cases i with
  | reference x f => cases f <;> simp [source]
  | _ => simp [source]

/-- Reading an item uses up at least its first character. -/
theorem read_rest_le (c : Char) (s : Text) : (read c s).2.length ≤ s.length := by
  have h := congrArg List.length (read_append c s)
  have hpos := List.length_pos_iff.2 (source_ne_nil (read c s).1)
  simp only [List.length_append, List.length_cons] at h
  omega

end Item

/-! ### Double-quoted strings -/

/-- The items of a double-quoted string, whether its closing quote was found, and the rest. -/
structure DoubleScan where
  items : List Item
  closed : Bool
  rest : Text
  deriving DecidableEq, Repr

def scanDouble (s : Text) : DoubleScan :=
  match s with
  | [] => ⟨[], false, []⟩
  | c :: s =>
    if c = '"' then ⟨[], true, s⟩
    else
      let next := Item.read c s
      let scan := scanDouble next.2
      { scan with items := next.1 :: scan.items }
termination_by s.length
decreasing_by
  have := Item.read_rest_le c s
  simp only [List.length_cons]
  omega

def Item.sources (items : List Item) : Text := items.flatMap source

/-- The items, the closing quote and the rest make up the text. -/
theorem scanDouble_append (s : Text) :
    Item.sources (scanDouble s).items ++
      ((if (scanDouble s).closed then ['"'] else []) ++ (scanDouble s).rest) = s := by
  fun_induction scanDouble s with
  | case1 => rfl
  | case2 => rfl
  | case3 c s _ next scan ih =>
    simp only [Item.sources, List.flatMap_cons, List.append_assoc] at ih ⊢
    rw [ih]
    exact Item.read_append c s

/-- A string left open goes to the end of the text. -/
theorem scanDouble_rest {s : Text} (h : (scanDouble s).closed = false) :
    (scanDouble s).rest = [] := by
  fun_induction scanDouble s with
  | case1 => rfl
  | case2 => simp at h
  | case3 c s _ next scan ih => exact ih h

/-! ### Segments -/

/-- A stretch of a raw word that one quoting rule covers. -/
inductive Segment
  /-- An item outside quotes. -/
  | bare (item : Item)
  /-- A single-quoted string. -/
  | single (content : Text) (closed : Bool)
  /-- A double-quoted string. -/
  | double (items : List Item) (closed : Bool)
  deriving DecidableEq, Repr

namespace Segment

def source : Segment → Text
  | bare i => i.source
  | single content closed => '\'' :: content ++ (if closed then ['\''] else [])
  | double items closed => '"' :: Item.sources items ++ (if closed then ['"'] else [])

def byteSize (g : Segment) : Nat := Text.byteSize g.source

/-- Reads the segment that starts with `c`, in front of `s`. -/
def read (c : Char) (s : Text) : Segment × Text :=
  if c = '\'' then
    match Text.splitAtFirst '\'' s with
    | some (content, rest) => (single content true, rest)
    | none => (single s false, [])
  else if c = '"' then
    let scan := scanDouble s
    (double scan.items scan.closed, scan.rest)
  else
    let next := Item.read c s
    (bare next.1, next.2)

/-- The segment and the rest make up the text. -/
theorem read_append (c : Char) (s : Text) : (read c s).1.source ++ (read c s).2 = c :: s := by
  unfold read
  split
  · rename_i hc
    subst hc
    split
    · rename_i h
      simp [source, Text.eq_of_splitAtFirst h]
    · simp [source]
  · split
    · rename_i hc
      subst hc
      simp only [source, List.cons_append, List.append_assoc, List.cons.injEq, true_and]
      exact scanDouble_append s
    · exact Item.read_append c s

theorem source_ne_nil (g : Segment) : g.source ≠ [] := by
  cases g with
  | bare i => exact i.source_ne_nil
  | _ => simp [source]

/-- Reading a segment uses up at least its first character. -/
theorem read_rest_le (c : Char) (s : Text) : (read c s).2.length ≤ s.length := by
  have h := congrArg List.length (read_append c s)
  have hpos := List.length_pos_iff.2 (source_ne_nil (read c s).1)
  simp only [List.length_append, List.length_cons] at h
  omega

def ofRaw (raw : Text) : List Segment :=
  match raw with
  | [] => []
  | c :: s =>
    let next := read c s
    next.1 :: ofRaw next.2
termination_by raw.length
decreasing_by
  have := read_rest_le c s
  simp only [List.length_cons]
  omega

theorem flatMap_source_ofRaw (raw : Text) : (ofRaw raw).flatMap source = raw := by
  fun_induction ofRaw raw with
  | case1 => rfl
  | case2 c s next ih =>
    simp only [List.flatMap_cons, ih]
    exact read_append c s

end Segment

end ShellLine
