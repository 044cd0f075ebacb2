import Mathlib.Data.List.Basic
import ShellLine.Proofs.Word.Joining
import ShellLine.Proofs.Word.OpenQuotes

/-! # What a raw word leaves open

Nothing follows what a raw word leaves open, so there is at most one such thing, or a name
and the double quotes around it. Each is reported from where the machine that passes over
names in braces finds it opened, up to the end of the word. A name without its closing
brace is the last part of the word. -/

namespace ShellLine

/-- No double quote in a text that follows an opening one closes the string. -/
def StaysDouble (s : Text) : Prop :=
  ∀ u v, s = u ++ '"' :: v → Quoting.passes false .double u ≠ (false, .double)

/-- In the text `s` at offset `base`, the machine goes from the state `q` to the state `r`, in no
name, and there `mark` and `inside` stand under `p`, up to the end. -/
def OpensUnder (q : Quoting) (s : Text) (base : Nat) (r : Quoting) (mark inside : Text)
    (p : Span) : Prop :=
  ∃ before, s = before ++ (mark ++ inside) ∧ Quoting.passes false q before = (false, r) ∧
    p = ⟨base + Text.byteSize before, base + Text.byteSize s⟩

/-- `LeftOpen raw base ps ds`: of the raw word at offset `base` with the parts `ps`, the diagnostics
`ds` name what is left open. -/
inductive LeftOpen (raw : Text) (base : Nat) (ps : List Part) : List Diagnostic → Prop
  | nothing (outside : (Quoting.passes false .bare raw).1 = false)
      (closed : (Quoting.passes false .bare raw).2.open? = none) : LeftOpen raw base ps []
  | single {x : Text} {p : Span} (opens : OpensUnder .bare raw base .bare ['\''] x p)
      (stays : '\'' ∉ x) : LeftOpen raw base ps [⟨.unterminatedSingleQuote, p⟩]
  | double {x : Text} {p : Span} (opens : OpensUnder .bare raw base .bare ['"'] x p)
      (stays : StaysDouble x) (outside : (Quoting.passes false .double x).1 = false) :
      LeftOpen raw base ps [⟨.unterminatedDoubleQuote, p⟩]
  | brace {x : Text} {p : Span} (opens : OpensUnder .bare raw base .bare ['$', '{'] x p)
      (stays : '}' ∉ x) (last : ps.getLast? = some (.reference x true p)) :
      LeftOpen raw base ps [⟨.unterminatedBrace, p⟩]
  | braceInDouble {x y : Text} {p q : Span}
      (quote : OpensUnder .bare raw base .bare ['"'] y q) (quoteStays : StaysDouble y)
      (opens : OpensUnder .bare raw base .double ['$', '{'] x p) (stays : '}' ∉ x)
      (inside : q.start < p.start) (last : ps.getLast? = some (.reference x true p)) :
      LeftOpen raw base ps [⟨.unterminatedBrace, p⟩, ⟨.unterminatedDoubleQuote, q⟩]

theorem OpensUnder.prepend {q r t : Quoting} {u s mark inside : Text} {base : Nat} {p : Span}
    (through : q.Through u r s)
    (h : OpensUnder r s (base + Text.byteSize u) t mark inside p) :
    OpensUnder q (u ++ s) base t mark inside p := by
  obtain ⟨before, rfl, hbefore, rfl⟩ := h
  refine ⟨u ++ before, (List.append_assoc ..).symm, ?_, ?_⟩
  · rw [through before (List.prefix_append ..), hbefore]
  · simp only [Text.byteSize_append, Nat.add_assoc]

theorem OpensUnder.le_start {q r : Quoting} {s mark inside : Text} {base : Nat} {p : Span}
    (h : OpensUnder q s base r mark inside p) : base ≤ p.start := by
  obtain ⟨before, _, _, rfl⟩ := h
  exact Nat.le_add_right ..

/-! ### Between double quotes -/

namespace Item

end Item

namespace DoubleReads

/-- Behind the closing quote the machine is outside quotes. -/
theorem through {s : Text} {items : List Item} {closed : Bool} {r : Text}
    (h : DoubleReads s items closed r) (hclosed : closed = true) :
    Quoting.double.Through (Item.sources items ++ ['"']) .bare r := by
  induction h with
  | unclosed => cases hclosed
  | close s => exact fun t _ => rfl
  | @item c s i r items closed rest quote head tail ih =>
    subst hclosed
    have hsource := tail.source_append
    rw [if_pos rfl, ← List.append_assoc] at hsource
    have hhead := head.through (q := .double) rfl quote nofun (head.runsOut_eq_false tail.ne_nil)
    rw [← hsource] at hhead
    show Quoting.double.Through (i.source ++ Item.sources items ++ ['"']) .bare rest
    rw [List.append_assoc]
    exact hhead.trans (ih rfl)

end DoubleReads

/-! ### Segments -/

namespace Segment

/-- Whether a segment can only be read where the word ends. -/
def runsOut : Segment → Bool
  | bare item => item.runsOut
  | single _ closed => !closed
  | double _ closed => !closed

theorem Reads.rest_eq_nil {c : Char} {s : Text} {g : Segment} {r : Text} (h : Reads c s g r)
    (hg : g.runsOut = true) : r = [] := by
  cases h with
  | single inside s => cases hg
  | openSingle inside => rfl
  | @double _ items closed _ inside =>
    cases closed with
    | true => cases hg
    | false => exact inside.rest_eq_nil
  | bare single double item => exact item.rest_eq_nil hg

/-- Behind a segment the machine is outside quotes again. -/
theorem Reads.through {c : Char} {s : Text} {g : Segment} {r : Text} (h : Reads c s g r)
    (hg : g.runsOut = false) : Quoting.bare.Through g.source .bare r := by
  intro t ht
  cases h with
  | @single x inside s =>
    show Quoting.passes false .single (x ++ ['\''] ++ t) = _
    rw [List.append_assoc, Quoting.passes_single inside]
    rfl
  | openSingle inside => cases hg
  | @double _ items closed _ inside =>
    cases closed with
    | true => exact inside.through rfl t ht
    | false => cases hg
  | bare single double item => exact item.through rfl double (fun _ => single) hg t ht

end Segment

/-! ### Words -/

theorem LeftOpen.prepend {u raw : Text} {base : Nat} {ps : List Part} {ds : List Diagnostic}
    (through : Quoting.bare.Through u .bare raw)
    (h : LeftOpen raw (base + Text.byteSize u) ps ds) (front : List Part) :
    LeftOpen (u ++ raw) base (front ++ ps) ds := by
  have hwhole := through raw List.prefix_rfl
  cases h with
  | nothing outside closed =>
    rw [← hwhole] at outside closed
    exact .nothing outside closed
  | single opens stays => exact .single (opens.prepend through) stays
  | double opens stays outside => exact .double (opens.prepend through) stays outside
  | brace opens stays last =>
    exact .brace (opens.prepend through) stays (List.mem_getLast?_append_of_mem_getLast? last)
  | braceInDouble quote quoteStays opens stays inside last =>
    exact .braceInDouble (quote.prepend through) quoteStays (opens.prepend through) stays inside
      (List.mem_getLast?_append_of_mem_getLast? last)

theorem Part.getLast?_merge {ps : List Part} {x : Text} {b : Bool} {s : Span}
    (h : ps.getLast? = some (reference x b s)) : (merge ps).getLast? = some (reference x b s) := by
  obtain ⟨front, rfl⟩ := List.getLast?_eq_some_iff.1 h
  rw [merge_append_reference, merge_nil, List.getLast?_concat]

theorem LeftOpen.merge {raw : Text} {base : Nat} {ps : List Part} {ds : List Diagnostic}
    (h : LeftOpen raw base ps ds) : LeftOpen raw base (Part.merge ps) ds := by
  cases h with
  | nothing outside closed => exact .nothing outside closed
  | single opens stays => exact .single opens stays
  | double opens stays outside => exact .double opens stays outside
  | brace opens stays last => exact .brace opens stays (Part.getLast?_merge last)
  | braceInDouble quote quoteStays opens stays inside last =>
    exact .braceInDouble quote quoteStays opens stays inside (Part.getLast?_merge last)

example : diagnosticsOfRaw ['a', '"', '$', '{', 'x', ' '] 3 =
    [⟨.unterminatedBrace, ⟨5, 9⟩⟩, ⟨.unterminatedDoubleQuote, ⟨4, 9⟩⟩] := by decide +kernel

end ShellLine
