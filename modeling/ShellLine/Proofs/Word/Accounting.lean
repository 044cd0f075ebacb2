import Mathlib.Data.List.Chain
import ShellLine.Proofs.Word.Extent
import ShellLine.Proofs.Word.Legibility
import ShellLine.Text.Utf8

/-! # What becomes of every byte of a raw word

Reading a raw word leaves nothing out. Every byte lies under a part or is one of the
quotes around parts, and under a reference stands what was written for it. The
references of a word are those of its items, in the same order, because joining
touches only texts; so each of them is known by its place, its name and the form in
which it was written. -/

namespace ShellLine

def Span.Covers (p : Span) (k : Nat) : Prop := p.start ≤ k ∧ k < p.stop

/-- In the raw word at offset `base`, the text `u` stands under `p`, and `after` behind it. -/
def StandsUnder (raw : Text) (base : Nat) (p : Span) (u after : Text) : Prop :=
  ∃ before, raw = before ++ (u ++ after) ∧
    p = ⟨base + Text.byteSize before, base + Text.byteSize before + Text.byteSize u⟩

/-- Whether a text may stand behind `$` as a name. -/
def IsPlainName (x : Text) : Prop :=
  ∃ c s, x = c :: s ∧ isNameStart c = true ∧ ∀ d ∈ s, isNameChar d = true

/-- In the raw word at offset `base`, a reference to `x` is written in this form under `p`. -/
def Spelled (raw : Text) (base : Nat) (x : Text) (p : Span) : ReferenceForm → Prop
  | .plain => IsPlainName x ∧ ∃ after, StandsUnder raw base p ('$' :: x) after ∧
      ∀ c ∈ after.head?, isNameChar c = false
  | .braced => '}' ∉ x ∧ ∃ after, StandsUnder raw base p ('$' :: '{' :: (x ++ ['}'])) after
  | .unclosed => '}' ∉ x ∧ StandsUnder raw base p ('$' :: '{' :: x) []

namespace Part

theorem texts_apart_attach (p : Part) {ps : List Part}
    (h : ps.IsChain fun p q => ¬ (p.isText = true ∧ q.isText = true)) :
    (attach p ps).IsChain fun p q => ¬ (p.isText = true ∧ q.isText = true) := by
  unfold attach
  split
  · exact h
  · rw [List.isChain_cons] at h ⊢
    exact h
  · rename_i hempty hjoin
    refine List.isChain_cons.2 ⟨?_, h⟩
    rintro q hq ⟨hp, hqt⟩
    obtain ⟨rest, rfl⟩ := List.head?_eq_some_iff.1 hq
    cases p with
    | reference x b s => cases hp
    | text v s =>
      cases q with
      | reference x b t => cases hqt
      | text w t => exact hjoin v s w t rest rfl rfl

theorem texts_apart_merge (ps : List Part) :
    (merge ps).IsChain fun p q => ¬ (p.isText = true ∧ q.isText = true) := by
  induction ps with
  | nil => exact .nil
  | cons p ps ih => exact texts_apart_attach p ih

/-! ### Bytes under parts -/

end Part

/-- A part of `ps` that is no empty text lies over the byte. -/
def CoveredBy (ps : List Part) (k : Nat) : Prop :=
  ∃ p ∈ ps, p.span.Covers k ∧ ∀ s, p ≠ .text [] s

theorem CoveredBy.mono {ps qs : List Part} {k : Nat} (h : CoveredBy ps k) (hsub : ps ⊆ qs) :
    CoveredBy qs k := by
  obtain ⟨p, hp, hk⟩ := h
  exact ⟨p, hsub hp, hk⟩

/-- A reference in a raw word. -/
structure Occurrence where
  start : Nat
  name : Text
  form : ReferenceForm
  deriving DecidableEq, Repr

namespace Occurrence

def span (o : Occurrence) : Span :=
  ⟨o.start, o.start + (Item.reference o.name o.form).byteSize⟩

def part (o : Occurrence) : Part := .reference o.name (o.form != .plain) o.span

def reports (o : Occurrence) : List Diagnostic :=
  if o.form = .unclosed then [⟨.unterminatedBrace, o.span⟩] else []

end Occurrence

namespace Item

def occurrences (i : Nat) : Item → List Occurrence
  | reference x form => [⟨i, x, form⟩]
  | _ => []

def allOccurrences : Nat → List Item → List Occurrence
  | _, [] => []
  | i, item :: items => item.occurrences i ++ allOccurrences (i + item.byteSize) items

end Item

namespace Segment

def occurrences (i : Nat) : Segment → List Occurrence
  | bare item => item.occurrences i
  | single .. => []
  | double items _ => Item.allOccurrences (i + 1) items

def allOccurrences : Nat → List Segment → List Occurrence
  | _, [] => []
  | i, g :: gs => g.occurrences i ++ allOccurrences (i + g.byteSize) gs

end Segment

namespace Part

theorem references_attach (p : Part) (ps : List Part) :
    (attach p ps).filter (fun q => !q.isText) = (p :: ps).filter fun q => !q.isText := by
  unfold attach
  split <;> rfl

/-- Joining keeps the references and their order. -/
theorem references_merge (ps : List Part) :
    (merge ps).filter (fun p => !p.isText) = ps.filter fun p => !p.isText := by
  induction ps with
  | nil => rfl
  | cons p ps ih => rw [merge_cons, references_attach, List.filter_cons, List.filter_cons, ih]

end Part

theorem StandsUnder.prepend {raw : Text} {base : Nat} {p : Span} {u after : Text} (front : Text)
    (h : StandsUnder raw (base + Text.byteSize front) p u after) :
    StandsUnder (front ++ raw) base p u after := by
  obtain ⟨before, rfl, rfl⟩ := h
  refine ⟨front ++ before, by simp, ?_⟩
  simp only [Text.byteSize_append, Nat.add_assoc]

theorem Spelled.prepend {raw : Text} {base : Nat} {x : Text} {p : Span} {form : ReferenceForm}
    (front : Text) (h : Spelled raw (base + Text.byteSize front) x p form) :
    Spelled (front ++ raw) base x p form := by
  cases form with
  | plain =>
    obtain ⟨hname, after, hstands, hstop⟩ := h
    exact ⟨hname, after, hstands.prepend front, hstop⟩
  | braced =>
    obtain ⟨hname, after, hstands⟩ := h
    exact ⟨hname, after, hstands.prepend front⟩
  | unclosed => exact ⟨h.1, h.2.prepend front⟩

theorem Item.Reads.spelled {c : Char} {s : Text} {i : Item} {r : Text} (h : Reads c s i r)
    {base : Nat} {o : Occurrence} (ho : o ∈ i.occurrences base) :
    Spelled (c :: s) base o.name o.span o.form := by
  have happend := h.source_append
  have hstands {x : Text} {form : ReferenceForm} (hi : i = .reference x form) :
      StandsUnder (c :: s) base (Occurrence.span ⟨base, x, form⟩) (reference x form).source r := by
    subst hi
    exact ⟨[], happend.symm, rfl⟩
  cases h with
  | braced inside s =>
    obtain rfl := List.mem_singleton.1 ho
    exact ⟨inside, r, hstands rfl⟩
  | unclosed inside =>
    obtain rfl := List.mem_singleton.1 ho
    exact ⟨inside, hstands rfl⟩
  | @plain d x _ start inside stop =>
    obtain rfl := List.mem_singleton.1 ho
    exact ⟨⟨d, x, rfl, start, inside⟩, r, hstands rfl, stop⟩
  | _ => cases ho

theorem DoubleReads.spelled {s : Text} {items : List Item} {closed : Bool} {r : Text}
    (h : DoubleReads s items closed r) {base : Nat} {o : Occurrence}
    (ho : o ∈ Item.allOccurrences base items) : Spelled s base o.name o.span o.form := by
  induction h generalizing base with
  | unclosed => cases ho
  | close s => cases ho
  | item quote head tail ih =>
    rcases List.mem_append.1 ho with ho | ho
    · exact head.spelled ho
    · rw [← head.source_append]
      exact (ih ho).prepend _

theorem Segment.Reads.spelled {c : Char} {s : Text} {g : Segment} {r : Text} (h : Reads c s g r)
    {base : Nat} {o : Occurrence} (ho : o ∈ g.occurrences base) :
    Spelled (c :: s) base o.name o.span o.form := by
  cases h with
  | bare single double item => exact item.spelled ho
  | double inside => exact (inside.spelled ho).prepend ['"']
  | _ => cases ho

theorem RawReads.spelled {raw : Text} {gs : List Segment} (h : RawReads raw gs) {base : Nat}
    {o : Occurrence} (ho : o ∈ Segment.allOccurrences base gs) :
    Spelled raw base o.name o.span o.form := by
  induction h generalizing base with
  | nil => cases ho
  | cons head tail ih =>
    rcases List.mem_append.1 ho with ho | ho
    · exact head.spelled ho
    · rw [← head.source_append]
      exact (ih ho).prepend _

end ShellLine
