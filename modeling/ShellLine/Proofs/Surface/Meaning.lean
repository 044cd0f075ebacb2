import ShellLine.Pipeline
import ShellLine.Proofs.Surface.Syntax
import ShellLine.Proofs.Word.Joining

/-! # What trees mean

Every tree has a place, the offset at which its text starts, and a meaning there:
an atom is a part, a word is the parts of its segments with the texts among them
joined, an element is a word or a redirection, a stage is a command and a line is a
pipeline. The only thing that a line can lack is a command, where one of several
stages is empty. -/

namespace ShellLine.Surface

/-! ### Words -/

namespace Atom

/-- The character that a backslash pair stands for. Between double quotes there are pairs for the
newline and the tab. -/
def escaped (quoted : Bool) (c : Char) : Char :=
  if quoted = true ∧ c = 'n' then '\n' else if quoted = true ∧ c = 't' then '\t' else c

def part (quoted : Bool) (i : Nat) (a : Atom) : Part :=
  let span : Span := ⟨i, i + Text.byteSize a.render⟩
  match a with
  | char c => .text [c] span
  | pair c => .text [escaped quoted c] span
  | plain x => .reference x.render false span
  | braced x => .reference x true span
  | dollar => .text ['$'] span

def parts : Nat → List Atom → List Part
  | _, [] => []
  | i, a :: as => a.part true i :: parts (i + Text.byteSize a.render) as

end Atom

namespace Segment

def parts (i : Nat) : Segment → List Part
  | atom a => [a.part false i]
  | single content => [.text content ⟨i + 1, i + 1 + Text.byteSize content⟩]
  | double items => Atom.parts (i + 1) items

def allParts : Nat → List Segment → List Part
  | _, [] => []
  | i, g :: gs => g.parts i ++ allParts (i + Text.byteSize g.render) gs

end Segment

namespace Word

def size (w : Word) : Nat := Text.byteSize w.render

def meaning (i : Nat) (w : Word) : ShellLine.Word :=
  ⟨Part.joined (Segment.allParts i w.segments), ⟨i, i + w.size⟩⟩

end Word

/-! ### Elements -/

namespace Sign

def size (sign : Sign) : Nat := Text.byteSize sign.render

def op : Sign → RedirectOp
  | input => .input
  | output => .output
  | append => .append
  | clobber => .clobber
  | outputFrom _ => .output
  | appendFrom _ => .append

def fd? : Sign → Option UInt32
  | input => some 0
  | output => some 1
  | append => some 1
  | clobber => none
  | outputFrom fd => some fd.value
  | appendFrom fd => some fd.value

end Sign

namespace Element

def size (e : Element) : Nat := Text.byteSize e.render

theorem size_file (sign : Sign) (gap : Gap) (target : Word) :
    (file sign gap target).size = sign.size + (Text.byteSize gap.text + target.size) := by
  simp [size, render, Sign.size, Word.size]

def meaning (i : Nat) (e : Element) : ShellLine.Element :=
  match e with
  | word w => .word (w.meaning i)
  | file sign gap target =>
    .redirection ⟨sign.op, sign.fd?, target.meaning (i + sign.size + Text.byteSize gap.text), none,
      ⟨i, i + e.size⟩⟩
  | dup fd source =>
    .redirection ⟨.dup, some fd.value, ⟨[], Span.empty (i + e.size)⟩, some source.value,
      ⟨i, i + e.size⟩⟩

end Element

/-! ### Stages -/

namespace Stage

def size (s : Stage) : Nat := Text.byteSize s.render

theorem size_renderOthers (gap : Gap) (e : Element) (others : List (Gap × Element)) :
    Text.byteSize (renderOthers ((gap, e) :: others)) =
      Text.byteSize gap.text + (e.size + Text.byteSize (renderOthers others)) := by
  simp [renderOthers, Element.size]

def othersFrom : Nat → List (Gap × Element) → List ShellLine.Element
  | _, [] => []
  | i, (gap, e) :: others =>
    e.meaning (i + Text.byteSize gap.text) ::
      othersFrom (i + Text.byteSize gap.text + e.size) others

def elements (i : Nat) : Stage → List ShellLine.Element
  | empty _ => []
  | filled lead first others _ =>
    first.meaning (i + Text.byteSize lead.text) ::
      othersFrom (i + Text.byteSize lead.text + first.size) others

/-- Where the first element of the stage starts; for an empty stage, where it ends. -/
def start (i : Nat) : Stage → Nat
  | empty blanks => i + Text.byteSize blanks.text
  | filled lead _ _ _ => i + Text.byteSize lead.text

/-- Where the last element of the stage ends; for an empty stage, where it starts. -/
def stop (i : Nat) : Stage → Nat
  | empty _ => i
  | filled lead first others _ =>
    i + Text.byteSize lead.text + first.size + Text.byteSize (renderOthers others)

-- an empty command stands where the stage ends
def command (i : Nat) (s : Stage) : Command :=
  ⟨(s.elements i).filterMap ShellLine.Element.word?,
    (s.elements i).filterMap ShellLine.Element.redirection?,
    ⟨s.start i, max (s.start i) (s.stop i)⟩⟩

/-- What the stage lacks if it is one of several. -/
def lack (i : Nat) (s : Stage) : List Diagnostic :=
  match s with
  | empty _ => [⟨.emptyCommand, Span.empty (s.start i)⟩]
  | filled .. => []

end Stage

/-! ### Lines -/

namespace Line

/-- What a function of the place gives for each stage, the first of them at `i`. One byte stands
between neighbours. -/
def overStages {α : Type} (f : Nat → Stage → α) : Nat → List Stage → List α
  | _, [] => []
  | i, s :: ss => f i s :: overStages f (i + s.size + 1) ss

/-- Where the last of some stages ends, the first of them at `i`. -/
def stopFrom : Nat → Stage → List Stage → Nat
  | i, s, [] => s.stop i
  | i, s, t :: ss => stopFrom (i + s.size + 1) t ss

def commands (l : Line) : List Command := overStages Stage.command 0 (l.first :: l.others)

-- from the first element or pipe to the last one
def span (l : Line) : Span :=
  ⟨l.first.start 0, max (l.first.start 0) (stopFrom 0 l.first l.others)⟩

-- a stage alone may be empty
def diagnostics (l : Line) : List Diagnostic :=
  if l.others = [] then [] else (overStages Stage.lack 0 (l.first :: l.others)).flatten

def meaning (l : Line) : ParseOutput := ⟨⟨l.commands, l.span⟩, l.diagnostics⟩

end Line

end ShellLine.Surface
