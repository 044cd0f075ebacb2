import ShellLine.Expansion
import ShellLine.Proofs.Surface.Meaning

/-! # What lines expand to

Once a lookup gives texts to names, a word is one text: the texts of its segments
one after the other. Nothing of how the word is cut into parts and no place is left
in it. A line expands to the arguments and redirections of its stages, and the
pipeline that the line means expands to the same. -/

namespace ShellLine

/-! ### Joined parts -/

namespace Part

theorem flatMap_expand_attach (lookup : Lookup) (p : Part) (ps : List Part) :
    (attach p ps).flatMap (expand lookup) = p.expand lookup ++ ps.flatMap (expand lookup) := by
  cases p with
  | reference x b s => rfl
  | text v s =>
    cases v with
    | nil => rfl
    | cons c v =>
      cases ps with
      | nil => rfl
      | cons q ps =>
        cases q with
        | reference x b t => rfl
        | text w t =>
          show ((c :: v) ++ w) ++ ps.flatMap (expand lookup) = _
          rw [List.append_assoc]
          rfl

/-- Joining keeps the text. -/
theorem flatMap_expand_joined (lookup : Lookup) (ps : List Part) :
    (joined ps).flatMap (expand lookup) = ps.flatMap (expand lookup) := by
  rw [← merge_eq_joined]
  induction ps with
  | nil => rfl
  | cons p ps ih => rw [merge_cons, flatMap_expand_attach, ih, List.flatMap_cons]

end Part

namespace Surface

/-! ### Words -/

namespace Atom

def value (lookup : Lookup) (quoted : Bool) : Atom → Text
  | char c => [c]
  | pair c => [escaped quoted c]
  | plain x => (lookup x.render).getD []
  | braced x => (lookup x).getD []
  | dollar => ['$']

theorem expand_part (lookup : Lookup) (quoted : Bool) (i : Nat) (a : Atom) :
    (a.part quoted i).expand lookup = a.value lookup quoted := by
  cases a <;> rfl

theorem expand_parts (lookup : Lookup) (i : Nat) (items : List Atom) :
    (parts i items).flatMap (Part.expand lookup) = items.flatMap (value lookup true) := by
  induction items generalizing i with
  | nil => rfl
  | cons a items ih => rw [parts, List.flatMap_cons, List.flatMap_cons, expand_part, ih]

end Atom

namespace Segment

def value (lookup : Lookup) : Segment → Text
  | atom a => a.value lookup false
  | single content => content
  | double items => items.flatMap (Atom.value lookup true)

theorem expand_parts (lookup : Lookup) (i : Nat) (g : Segment) :
    (g.parts i).flatMap (Part.expand lookup) = g.value lookup := by
  cases g with
  | atom a =>
    rw [parts, List.flatMap_cons, a.expand_part]
    exact List.append_nil _
  | single content => exact List.append_nil _
  | double items => exact Atom.expand_parts lookup (i + 1) items

theorem expand_allParts (lookup : Lookup) (i : Nat) (gs : List Segment) :
    (allParts i gs).flatMap (Part.expand lookup) = gs.flatMap (value lookup) := by
  induction gs generalizing i with
  | nil => rfl
  | cons g gs ih => rw [allParts, List.flatMap_append, List.flatMap_cons, expand_parts, ih]

end Segment

namespace Word

/-- The argument that a word gives. -/
def value (lookup : Lookup) (w : Word) : Text := w.segments.flatMap (Segment.value lookup)

theorem expand_meaning (lookup : Lookup) (i : Nat) (w : Word) :
    (w.meaning i).expand lookup = w.value lookup := by
  rw [ShellLine.Word.expand, meaning, Part.flatMap_expand_joined, Segment.expand_allParts]
  rfl

end Word

/-! ### Elements -/

namespace Sign

/-- The descriptors that the sign points to the file. -/
def fds : Sign → List UInt32
  | input => [0]
  | output => [1]
  | append => [1]
  | clobber => [1, 2]
  | outputFrom fd => [fd.value]
  | appendFrom fd => [fd.value]

end Sign

namespace Element

def argument? (lookup : Lookup) : Element → Option Text
  | word w => some (w.value lookup)
  | _ => none

def redirection? (lookup : Lookup) : Element → Option ResolvedRedirection
  | word _ => none
  | file sign _ target => some ⟨sign.op, sign.fds, .path (target.value lookup)⟩
  | dup fd source => some ⟨.dup, [fd.value], .descriptor (some source.value)⟩

theorem expand_word? (lookup : Lookup) (i : Nat) (e : Element) :
    (e.meaning i).word?.map (ShellLine.Word.expand lookup) = e.argument? lookup := by
  cases e with
  | word w => exact congrArg some (w.expand_meaning lookup i)
  | _ => rfl

theorem resolve_redirection? (lookup : Lookup) (i : Nat) (e : Element) :
    (e.meaning i).redirection?.map (Redirection.resolve lookup) = e.redirection? lookup := by
  cases e with
  | file sign gap target =>
    have hvalue := target.expand_meaning lookup (i + sign.size + Text.byteSize gap.text)
    rw [redirection?, ← hvalue]
    cases sign <;> rfl
  | _ => rfl

end Element

/-! ### Lines -/

namespace Stage

def allElements : Stage → List Element
  | empty _ => []
  | filled _ first others _ => first :: others.map Prod.snd

def expansion (lookup : Lookup) (s : Stage) : ExpandedCommand :=
  ⟨s.allElements.filterMap (Element.argument? lookup),
    s.allElements.filterMap (Element.redirection? lookup)⟩

/-- What the elements of a stage give does not depend on their places. -/
theorem filterMap_elements {α : Type} {f : ShellLine.Element → Option α} {g : Element → Option α}
    (h : ∀ i e, f (Element.meaning i e) = g e) (s : Stage) (i : Nat) :
    (s.elements i).filterMap f = s.allElements.filterMap g := by
  have hothers (others : List (Gap × Element)) (j : Nat) :
      (othersFrom j others).filterMap f = (others.map Prod.snd).filterMap g := by
    induction others generalizing j with
    | nil => rfl
    | cons other others ih =>
      rw [othersFrom, List.map_cons, List.filterMap_cons, List.filterMap_cons, h, ih]
  cases s with
  | empty blanks => rfl
  | filled lead first others trail =>
    rw [elements, allElements, List.filterMap_cons, List.filterMap_cons, h, hothers]

theorem expand_command (lookup : Lookup) (i : Nat) (s : Stage) :
    (s.command i).expand lookup = s.expansion lookup := by
  have hwords := filterMap_elements (f := fun e => e.word?.map (ShellLine.Word.expand lookup))
    (Element.expand_word? lookup) s i
  have hredirections := filterMap_elements
    (f := fun e => e.redirection?.map (Redirection.resolve lookup))
    (Element.resolve_redirection? lookup) s i
  rw [Command.expand, command, expansion, List.map_filterMap, List.map_filterMap, hwords,
    hredirections]

end Stage

namespace Line

def expansion (lookup : Lookup) (l : Line) : List ExpandedCommand :=
  (l.first :: l.others).map (Stage.expansion lookup)

theorem expand_overStages (lookup : Lookup) (i : Nat) (ss : List Stage) :
    (overStages Stage.command i ss).map (Command.expand lookup) =
      ss.map (Stage.expansion lookup) := by
  induction ss generalizing i with
  | nil => rfl
  | cons s ss ih => rw [overStages, List.map_cons, List.map_cons, s.expand_command, ih]

/-- The pipeline that a line means expands as the line does. -/
theorem expand_meaning (lookup : Lookup) (l : Line) :
    l.meaning.pipeline.expand lookup = l.expansion lookup :=
  expand_overStages lookup 0 (l.first :: l.others)

end Line

end Surface

end ShellLine
