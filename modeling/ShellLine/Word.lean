import ShellLine.Span

/-! # Words

A word is a sequence of parts, each literal text or a reference to a variable.
Reading a word yields many small pieces of text; `Part.merge` joins neighbouring
texts and drops empty ones, so that two texts never stand side by side. -/

namespace ShellLine

/-- One part of a word. -/
inductive Part
  /-- Literal text. -/
  | text (value : Text) (span : Span)
  /-- A variable whose value stands here, with or without braces around its name. -/
  | reference (name : Text) (braced : Bool) (span : Span)
  deriving DecidableEq, Repr

namespace Part

def span : Part → Span
  | text _ s => s
  | reference _ _ s => s

def isText : Part → Bool
  | text .. => true
  | reference .. => false

def shift (n : Nat) : Part → Part
  | text v s => text v (s.shift n)
  | reference x b s => reference x b (s.shift n)

/-! ### Merging texts -/

/-- Puts a part in front of merged parts. An empty text disappears, and a text joins a text that
it meets; the joined text covers both places. -/
def attach : Part → List Part → List Part
  | text [] _, ps => ps
  | text v s, text w t :: ps => text (v ++ w) (s.cover t) :: ps
  | p, ps => p :: ps

def merge (ps : List Part) : List Part := ps.foldr attach []

@[simp] theorem merge_nil : merge [] = [] := rfl

@[simp] theorem merge_cons (p : Part) (ps : List Part) : merge (p :: ps) = attach p (merge ps) :=
  rfl

end Part

/-- One word: a single entry of an argument vector. -/
structure Word where
  parts : List Part
  span : Span
  deriving DecidableEq, Repr

namespace Word

/-- The word of no size that stands for a missing one. -/
def placeholder (i : Nat) : Word := ⟨[], Span.empty i⟩

def literal? (w : Word) : Option Text :=
  w.parts.foldr
    (fun p rest => match p with
      | .text v _ => rest.map (v ++ ·)
      | .reference .. => none)
    (some [])

def hasReferences (w : Word) : Bool := w.parts.any fun p => !p.isText

def shift (n : Nat) (w : Word) : Word := ⟨w.parts.map (Part.shift n), w.span.shift n⟩

/-- A word has a literal text exactly if it refers to no variable. -/
theorem literal?_isSome (w : Word) : w.literal?.isSome = !w.hasReferences := by
  obtain ⟨ps, s⟩ := w
  simp only [literal?, hasReferences]
  induction ps with
  | nil => rfl
  | cons p ps ih =>
    cases p with
    | text v t => simpa [Part.isText] using ih
    | reference x b t => simp [Part.isText]

end Word

end ShellLine
