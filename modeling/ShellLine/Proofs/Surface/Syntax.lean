import ShellLine.Text.Basic
import ShellLine.Token.Quoting
import ShellLine.Word.Segment

/-! # Lines as trees

A line that is written as it should be is a tree: stages of elements, elements of
words, words of segments. The tree holds everything that a writer may choose, the
blanks between the elements and the digits of a number included, so every tree has
one text. What a segment may hold can depend on what is written behind it; the
conditions `Fits` say so in terms of that text, and no reader occurs in them. -/

namespace ShellLine.Surface

/-! ### Blanks, names and numbers -/

structure Blanks where
  text : Text
  blank : text.all isBlank = true
  deriving DecidableEq

structure Gap extends Blanks where
  nonempty : text ≠ []
  deriving DecidableEq

structure Name where
  first : Char
  others : Text
  start : isNameStart first = true
  inside : ∀ c ∈ others, isNameChar c = true
  deriving DecidableEq

def Name.render (x : Name) : Text := x.first :: x.others

/-- A descriptor number in decimal digits; zeros may lead. -/
structure Descriptor where
  digits : Text
  nonempty : digits ≠ []
  decimal : ∀ c ∈ digits, c.isDigit = true
  small : Text.digitsValue digits < UInt32.size
  deriving DecidableEq

def Descriptor.value (fd : Descriptor) : UInt32 := UInt32.ofNat (Text.digitsValue fd.digits)

/-- Every number can be written, without leading zeros. -/
theorem Descriptor.exists_value_eq (n : UInt32) :
    ∃ fd : Descriptor, fd.digits = Text.ofNat n.toNat ∧ fd.value = n := by
  have hvalue := Text.digitsValue_ofNat n.toNat
  refine ⟨⟨Text.ofNat n.toNat, Nat.toDigits_ne_nil, fun _ => Text.isDigit_of_mem_ofNat, ?_⟩,
    rfl, ?_⟩
  · rw [hvalue]
    exact n.toNat_lt_size
  · rw [value, hvalue]
    exact UInt32.ofNat_toNat

/-! ### Atoms

The same five forms are written outside quotes and between double quotes, but not
with the same characters: a character that stands for itself, a backslash in front
of any character, `$name`, `${name}`, and a dollar sign that starts no reference. -/

inductive Atom
  | char (c : Char)
  | pair (c : Char)
  | plain (x : Name)
  | braced (x : Text)
  | dollar
  deriving DecidableEq

/-- The characters that do not stand for themselves. -/
def charStops (quoted : Bool) : Text :=
  if quoted then ['"', '\\', '$']
  else [' ', '\t', '\r', '\n', '|', '<', '>', '\'', '"', '\\', '$']

/-- The characters that names in braces are free of. -/
def nameStops (quoted : Bool) : Text :=
  if quoted then ['}', '"', '\\']
  else ['}', '"', '\\', '\'', ' ', '\t', '\r', '\n', '|', '<', '>', '&']

namespace Atom

def render : Atom → Text
  | char c => [c]
  | pair c => ['\\', c]
  | plain x => '$' :: x.render
  | braced x => '$' :: '{' :: (x ++ ['}'])
  | dollar => ['$']

def renderAll (as : List Atom) : Text := as.flatMap render

/-- Whether the atom may be written in front of the text `after`. -/
def Fits (quoted : Bool) (after : Text) : Atom → Prop
  | char c => c ∉ charStops quoted
  | pair _ => True
  | plain _ => ∀ c ∈ after.head?, isNameChar c = false
  | braced x => ∀ c ∈ x, c ∉ nameStops quoted
  | dollar => ∀ c ∈ after.head?, c ≠ '{' ∧ isNameStart c = false

/-- Whether each of the atoms may be written in front of the others and the text `after`. -/
def AllFit (quoted : Bool) (after : Text) : List Atom → Prop
  | [] => True
  | a :: as => a.Fits quoted (renderAll as ++ after) ∧ AllFit quoted after as

instance (quoted : Bool) (after : Text) : (a : Atom) → Decidable (a.Fits quoted after)
  | char c => inferInstanceAs (Decidable (c ∉ charStops quoted))
  | pair _ => inferInstanceAs (Decidable True)
  | plain _ => Option.decidableForallMem after.head?
  | braced x => List.decidableBAll (fun c => c ∉ nameStops quoted) x
  | dollar => Option.decidableForallMem after.head?

instance decidableAllFit (quoted : Bool) (after : Text) :
    (as : List Atom) → Decidable (AllFit quoted after as)
  | [] => inferInstanceAs (Decidable True)
  | a :: as =>
    have := decidableAllFit quoted after as
    inferInstanceAs (Decidable (a.Fits quoted (renderAll as ++ after) ∧ AllFit quoted after as))

end Atom

/-! ### Words -/

inductive Segment
  | atom (a : Atom)
  | single (content : Text)
  | double (items : List Atom)
  deriving DecidableEq

namespace Segment

def render : Segment → Text
  | atom a => a.render
  | single content => '\'' :: (content ++ ['\''])
  | double items => '"' :: (Atom.renderAll items ++ ['"'])

def renderAll (gs : List Segment) : Text := gs.flatMap render

/-- Whether the segment may be written in front of the text `after`. -/
def Fits (after : Text) : Segment → Prop
  | atom a => a.Fits false after
  | single content => '\'' ∉ content
  | double items => Atom.AllFit true ['"'] items

/-- Whether each of the segments may be written in front of the others. -/
def AllFit : List Segment → Prop
  | [] => True
  | g :: gs => g.Fits (renderAll gs) ∧ AllFit gs

instance (after : Text) : (g : Segment) → Decidable (g.Fits after)
  | atom a => inferInstanceAs (Decidable (a.Fits false after))
  | single content => inferInstanceAs (Decidable ('\'' ∉ content))
  | double items => inferInstanceAs (Decidable (Atom.AllFit true ['"'] items))

instance decidableAllFit : (gs : List Segment) → Decidable (AllFit gs)
  | [] => inferInstanceAs (Decidable True)
  | g :: gs =>
    have := decidableAllFit gs
    inferInstanceAs (Decidable (g.Fits (renderAll gs) ∧ AllFit gs))

end Segment

structure Word where
  segments : List Segment
  nonempty : segments ≠ []
  fit : Segment.AllFit segments
  deriving DecidableEq

def Word.render (w : Word) : Text := Segment.renderAll w.segments

/-! ### Elements

A sign is an operator that takes a file. `N>&M` takes none. -/

inductive Sign
  | input
  | output
  | append
  | clobber
  | outputFrom (fd : Descriptor)
  | appendFrom (fd : Descriptor)
  deriving DecidableEq

def Sign.render : Sign → Text
  | input => ['<']
  | output => ['>']
  | append => ['>', '>']
  | clobber => ['&', '>']
  | outputFrom fd => fd.digits ++ ['>']
  | appendFrom fd => fd.digits ++ ['>', '>']

inductive Element
  | word (w : Word)
  | file (sign : Sign) (gap : Gap) (target : Word)
  | dup (fd source : Descriptor)
  deriving DecidableEq

def Element.render : Element → Text
  | word w => w.render
  | file sign gap target => sign.render ++ (gap.text ++ target.render)
  | dup fd source => fd.digits ++ '>' :: '&' :: source.digits

/-! ### Lines -/

inductive Stage
  | empty (blanks : Blanks)
  /-- Elements with gaps between them; blanks may surround them all. -/
  | filled (lead : Blanks) (first : Element) (others : List (Gap × Element)) (trail : Blanks)
  deriving DecidableEq

namespace Stage

def renderOthers (others : List (Gap × Element)) : Text :=
  others.flatMap fun (gap, e) => gap.text ++ e.render

def render : Stage → Text
  | empty blanks => blanks.text
  | filled lead first others trail =>
    lead.text ++ (first.render ++ (renderOthers others ++ trail.text))

end Stage

structure Line where
  first : Stage
  others : List Stage
  deriving DecidableEq

namespace Line

def renderOthers (others : List Stage) : Text := others.flatMap fun s => '|' :: s.render

def render (l : Line) : Text := l.first.render ++ renderOthers l.others

end Line

/-- A text that is written from a tree: two stages, the second of them empty. -/
example : ∃ l : Line, l.render = "\"$x\\n\"\t2>&1 |".toList :=
  ⟨⟨.filled ⟨[], rfl⟩
      (.word ⟨[.double [.plain ⟨'x', [], rfl, nofun⟩, .pair 'n']], by decide, by decide⟩)
      [(⟨⟨['\t'], rfl⟩, by decide⟩,
        .dup ⟨['2'], by decide, by simp, by decide⟩ ⟨['1'], by decide, by simp, by decide⟩)]
      ⟨[' '], rfl⟩,
    [.empty ⟨[], rfl⟩]⟩, rfl⟩

end ShellLine.Surface
