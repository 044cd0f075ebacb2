import ShellLine.Expansion
import ShellLine.Text.Quoted

/-! # Arguments in quotes

An argument is written so that a shell reads it back. The functions that show commands
take the one that quotes an argument, which may refuse. What they are used with cuts the
argument into chunks, each written bare or between quotes of one kind:
`QuotesArguments` is what has to be known of such a function, and `quoteArgument?` is
one. It makes each chunk as long as one of the three styles can hold all of its
characters, and writes it in the plainest style that can. -/

namespace ShellLine

/-! ### Quoting functions -/

/-- The characters besides letters and digits that need no quotes. -/
def bareSigns : Text := "+-./:@]_".toList

def isBare (c : Char) : Bool := c.isAlphanum || bareSigns.contains c

/-- What stands for a character between double quotes. -/
def escapeQuoted (c : Char) : Text := if c = '"' ∨ c = '\\' then ['\\', c] else [c]

/-- A text, and a way to write it as one chunk. -/
inductive QuotedChunk : Text → Text → Prop
  | bare {s : Text} (plain : ∀ c ∈ s, isBare c = true) : QuotedChunk s s
  | single {s : Text} (unquoted : '\'' ∉ s) : QuotedChunk s ('\'' :: s ++ ['\''])
  | double {s : Text} (unreferred : '$' ∉ s) :
      QuotedChunk s ('"' :: s.flatMap escapeQuoted ++ ['"'])

/-- A text, and a way to write it as chunks one after the other. -/
inductive QuotedChunks : Text → Text → Prop
  | nil : QuotedChunks [] []
  | cons {s t written rest : Text} (chunk : QuotedChunk s written) (chunks : QuotedChunks t rest) :
      QuotedChunks (s ++ t) (written ++ rest)

/-- What is known of a function that quotes arguments: every argument without a zero character is
written, the empty one as two quotes and any other in chunks. -/
structure QuotesArguments (quote? : Text → Option Text) : Prop where
  empty : quote? [] = some ['\'', '\'']
  chunks : ∀ s : Text, s ≠ [] → '\x00' ∉ s → ∃ written, quote? s = some written ∧
    QuotedChunks s written

/-! ### The longest chunks -/

/-- The styles that can hold something. -/
structure QuoteStyles where
  bare : Bool
  single : Bool
  double : Bool
  deriving DecidableEq, Repr

namespace QuoteStyles

def onlySingle : QuoteStyles := ⟨false, true, false⟩

def inter (a b : QuoteStyles) : QuoteStyles :=
  ⟨a.bare && b.bare, a.single && b.single, a.double && b.double⟩

def isNone (a : QuoteStyles) : Bool := !a.bare && !a.single && !a.double

def ofChar (c : Char) : QuoteStyles :=
  ⟨isBare c,
    c != '\'' && c != '^' && c != '\\',
    c != '\x60' && c != '$' && c != '!' && c != '^'⟩

/-- The styles for the first character of a chunk. A caret stands in single quotes, and only in
front. -/
def ofFirst (c : Char) : QuoteStyles := if c = '^' then onlySingle else ofChar c

def render (a : QuoteStyles) (s : Text) : Text :=
  if a.bare then s
  else if a.single then '\'' :: s ++ ['\'']
  else '"' :: s.flatMap escapeQuoted ++ ['"']

end QuoteStyles

/-- A chunk cut from the text behind it, and the styles that can hold it. -/
structure QuoteChunk where
  text : Text
  styles : QuoteStyles
  rest : Text
  deriving DecidableEq, Repr

namespace QuoteChunk

/-- Cuts off the longest chunk that one of the given styles can hold. -/
def cut (styles : QuoteStyles) : Text → QuoteChunk
  | [] => ⟨[], styles, []⟩
  | c :: s =>
    let left := styles.inter (.ofChar c)
    if left.isNone then ⟨[], styles, c :: s⟩
    else
      let chunk := cut left s
      { chunk with text := c :: chunk.text }

/-- The chunk and the rest make up the text. -/
theorem cut_append (styles : QuoteStyles) (s : Text) :
    (cut styles s).text ++ (cut styles s).rest = s := by
  induction s generalizing styles with
  | nil => rfl
  | cons c s ih =>
    simp only [cut]
    split
    · rfl
    · simp [ih]

theorem cut_rest_le (styles : QuoteStyles) (s : Text) :
    (cut styles s).rest.length ≤ s.length := by
  have h := congrArg List.length (cut_append styles s)
  simp only [List.length_append] at h
  omega

end QuoteChunk

/-- The chunks of a text, each written in its style. -/
def quoteChunks (s : Text) : Text :=
  match s with
  | [] => []
  | c :: s =>
    let chunk := QuoteChunk.cut (.ofFirst c) s
    chunk.styles.render (c :: chunk.text) ++ quoteChunks chunk.rest
termination_by s.length
decreasing_by
  have := QuoteChunk.cut_rest_le (.ofFirst c) s
  simp only [List.length_cons]
  omega

/-- An argument in quotes where they are needed. No shell can read a zero character. -/
def quoteArgument? (s : Text) : Option Text :=
  if s = [] then some ['\'', '\'']
  else if s.contains '\x00' then none
  else some (quoteChunks s)

/-! ### Commands with quoted arguments -/

section

variable (quote? : Text → Option Text)

/-- An argument as it is shown; one that cannot be quoted is shown with escapes. -/
def renderArgument (s : Text) : Text := (quote? s).getD (Text.quoted s)

namespace ResolvedRedirection

def renderFds (r : ResolvedRedirection) : Text :=
  Text.join [','] (r.fds.map fun fd => Text.ofNat fd.toNat)

def render (r : ResolvedRedirection) : Text :=
  match r.target with
  | .path p =>
    if r.op = .clobber then "&> ".toList ++ renderArgument quote? p
    else r.renderFds ++ r.op.symbol ++ ' ' :: renderArgument quote? p
  | .descriptor (some fd) => r.renderFds ++ ">&".toList ++ Text.ofNat fd.toNat
  | .descriptor none => r.renderFds ++ ">&?".toList

end ResolvedRedirection

namespace ExpandedCommand

def render (c : ExpandedCommand) : Text :=
  Text.join [' '] (c.argv.map (renderArgument quote?)) ++
    c.redirections.flatMap fun r => ' ' :: r.render quote?

def renderLine (i : Nat) (c : ExpandedCommand) : Text :=
  Text.ofNat i ++ ": ".toList ++ c.render quote?

end ExpandedCommand

end

end ShellLine
