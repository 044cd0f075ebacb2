import ShellLine.Diagnostic
import ShellLine.Word
import ShellLine.Word.Segment

/-! # From raw words to parts

Every segment of a raw word contributes parts, and what it leaves open is a
diagnostic. Between double quotes the pairs of a backslash with `n` and with `t`
are a newline and a tab; every other backslash pair stands for its second
character. A quoted text covers what stands between its quotes. -/

namespace ShellLine

namespace Item

def byteSize (i : Item) : Nat := Text.byteSize i.source

def unescape (quoted : Bool) (c : Char) : Char :=
  if quoted then (if c = 'n' then '\n' else if c = 't' then '\t' else c) else c

/-- The part that an item at offset `i` contributes. -/
def part (quoted : Bool) (i : Nat) (item : Item) : Part :=
  let span : Span := ⟨i, i + item.byteSize⟩
  match item with
  | char c => .text [c] span
  | pair c => .text [unescape quoted c] span
  | backslash => .text ['\\'] span
  | dollar => .text ['$'] span
  | reference x form => .reference x (form != .plain) span

def diagnostics (i : Nat) (item : Item) : List Diagnostic :=
  match item with
  | reference _ .unclosed => [⟨.unterminatedBrace, ⟨i, i + item.byteSize⟩⟩]
  | _ => []

/-- The parts of items between double quotes, the first at offset `i`. -/
def parts : Nat → List Item → List Part
  | _, [] => []
  | i, item :: items => item.part true i :: parts (i + item.byteSize) items

/-- What items between double quotes leave open, the first at offset `i`. -/
def allDiagnostics : Nat → List Item → List Diagnostic
  | _, [] => []
  | i, item :: items => item.diagnostics i ++ allDiagnostics (i + item.byteSize) items

end Item

namespace Segment

/-- The parts that a segment at offset `i` contributes. -/
def parts (i : Nat) : Segment → List Part
  | bare item => [item.part false i]
  | single content _ => [.text content ⟨i + 1, i + 1 + Text.byteSize content⟩]
  | double items _ => Item.parts (i + 1) items

/-- What a segment at offset `i` leaves open. What it holds comes before the segment itself. -/
def diagnostics (i : Nat) (g : Segment) : List Diagnostic :=
  match g with
  | bare item => item.diagnostics i
  | single _ true => []
  | single _ false => [⟨.unterminatedSingleQuote, ⟨i, i + g.byteSize⟩⟩]
  | double items true => Item.allDiagnostics (i + 1) items
  | double items false =>
    Item.allDiagnostics (i + 1) items ++ [⟨.unterminatedDoubleQuote, ⟨i, i + g.byteSize⟩⟩]

/-- The parts of segments, the first at offset `i`. -/
def allParts : Nat → List Segment → List Part
  | _, [] => []
  | i, g :: gs => g.parts i ++ allParts (i + g.byteSize) gs

/-- What segments leave open, the first at offset `i`. -/
def allDiagnostics : Nat → List Segment → List Diagnostic
  | _, [] => []
  | i, g :: gs => g.diagnostics i ++ allDiagnostics (i + g.byteSize) gs

end Segment

/-- The parts of the raw word at offset `base`. -/
def partsOfRaw (raw : Text) (base : Nat) : List Part :=
  Part.merge (Segment.allParts base (Segment.ofRaw raw))

/-- What the raw word at offset `base` leaves open. -/
def diagnosticsOfRaw (raw : Text) (base : Nat) : List Diagnostic :=
  Segment.allDiagnostics base (Segment.ofRaw raw)

/-! ### Machine offsets

Within a line no offset is too large for a machine word. The place of a word that is read by
itself may be any machine word; then an offset is a sum of machine words, which wraps around. -/

def Span.displace (base : UInt64) (s : Span) : Span :=
  ⟨(base + UInt64.ofNat s.start).toNat, (base + UInt64.ofNat s.stop).toNat⟩

def Part.displace (base : UInt64) : Part → Part
  | text v s => text v (s.displace base)
  | reference x b s => reference x b (s.displace base)

def Diagnostic.displace (base : UInt64) (d : Diagnostic) : Diagnostic :=
  { d with span := d.span.displace base }

/-- The parts of a raw word that is read by itself, and what it leaves open. Each piece has its
place before texts are joined. -/
def splitWord (raw : Text) (base : UInt64) : List Part × List Diagnostic :=
  let gs := Segment.ofRaw raw
  (Part.merge ((Segment.allParts 0 gs).map (Part.displace base)),
    (Segment.allDiagnostics 0 gs).map (Diagnostic.displace base))

end ShellLine
