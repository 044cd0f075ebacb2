import ShellLine.Word.Reading

/-! # Raw words at other places

What a raw word is read as depends on its place only through the spans. Moved by
some bytes, a raw word has the same parts and leaves the same things open, all of
them moved by as many bytes. -/

namespace ShellLine

/-! ### Items -/

namespace Item

theorem part_shift (quoted : Bool) (n i : Nat) (item : Item) :
    item.part quoted (n + i) = (item.part quoted i).shift n := by
  have hspan : (⟨n + i, n + i + item.byteSize⟩ : Span) =
      Span.shift n ⟨i, i + item.byteSize⟩ := by
    simp only [Span.shift, Nat.add_assoc]
  cases item <;> simp only [part, hspan, Part.shift]

theorem diagnostics_shift (n i : Nat) (item : Item) :
    item.diagnostics (n + i) = (item.diagnostics i).map (Diagnostic.shift n) := by
  cases item with
  | reference x form =>
    cases form with
    | unclosed => simp only [diagnostics, List.map_cons, List.map_nil, Diagnostic.shift, Span.shift,
        Nat.add_assoc]
    | _ => rfl
  | _ => rfl

theorem parts_shift (n i : Nat) (items : List Item) :
    parts (n + i) items = (parts i items).map (Part.shift n) := by
  induction items generalizing i with
  | nil => rfl
  | cons item items ih =>
    rw [parts, parts, List.map_cons, part_shift, Nat.add_assoc, ih]

theorem allDiagnostics_shift (n i : Nat) (items : List Item) :
    allDiagnostics (n + i) items = (allDiagnostics i items).map (Diagnostic.shift n) := by
  induction items generalizing i with
  | nil => rfl
  | cons item items ih =>
    rw [allDiagnostics, allDiagnostics, List.map_append, diagnostics_shift, Nat.add_assoc, ih]

end Item

/-! ### Segments -/

namespace Segment

theorem parts_shift (n i : Nat) (g : Segment) :
    g.parts (n + i) = (g.parts i).map (Part.shift n) := by
  cases g with
  | bare item => exact congrArg (fun p => [p]) (item.part_shift false n i)
  | single content closed =>
    simp only [parts, List.map_cons, List.map_nil, Part.shift, Span.shift, Nat.add_assoc]
  | double items closed =>
    rw [parts, parts, Nat.add_assoc]
    exact Item.parts_shift n (i + 1) items

theorem diagnostics_shift (n i : Nat) (g : Segment) :
    g.diagnostics (n + i) = (g.diagnostics i).map (Diagnostic.shift n) := by
  cases g with
  | bare item => exact item.diagnostics_shift n i
  | single content closed =>
    cases closed with
    | true => rfl
    | false =>
      simp only [diagnostics, List.map_cons, List.map_nil, Diagnostic.shift, Span.shift,
        Nat.add_assoc]
  | double items closed =>
    have hitems := Item.allDiagnostics_shift n (i + 1) items
    cases closed with
    | true =>
      rw [diagnostics, diagnostics, Nat.add_assoc]
      exact hitems
    | false =>
      simp only [diagnostics, Nat.add_assoc, hitems, List.map_append, List.map_cons, List.map_nil,
        Diagnostic.shift, Span.shift]

theorem allParts_shift (n i : Nat) (gs : List Segment) :
    allParts (n + i) gs = (allParts i gs).map (Part.shift n) := by
  induction gs generalizing i with
  | nil => rfl
  | cons g gs ih => rw [allParts, allParts, List.map_append, parts_shift, Nat.add_assoc, ih]

theorem allDiagnostics_shift (n i : Nat) (gs : List Segment) :
    allDiagnostics (n + i) gs = (allDiagnostics i gs).map (Diagnostic.shift n) := by
  induction gs generalizing i with
  | nil => rfl
  | cons g gs ih =>
    rw [allDiagnostics, allDiagnostics, List.map_append, diagnostics_shift, Nat.add_assoc, ih]

end Segment

/-! ### Words -/

namespace Part

theorem attach_shift (n : Nat) (p : Part) (ps : List Part) :
    attach (p.shift n) (ps.map (shift n)) = (attach p ps).map (shift n) := by
  cases p with
  | reference x b s => rfl
  | text v s =>
    cases v with
    | nil => rfl
    | cons c v =>
      cases ps with
      | nil => rfl
      | cons q ps =>
        cases q with
        | reference x b t => rfl
        | text w t =>
          have hcover := Span.shift_cover n s t
          simp only [shift, attach, List.map_cons, hcover]

theorem merge_shift (n : Nat) (ps : List Part) :
    merge (ps.map (shift n)) = (merge ps).map (shift n) := by
  induction ps with
  | nil => rfl
  | cons p ps ih => rw [List.map_cons, merge_cons, merge_cons, ih, attach_shift]

end Part

theorem partsOfRaw_shift (raw : Text) (n i : Nat) :
    partsOfRaw raw (n + i) = (partsOfRaw raw i).map (Part.shift n) := by
  rw [partsOfRaw, Segment.allParts_shift, Part.merge_shift, partsOfRaw]

theorem diagnosticsOfRaw_shift (raw : Text) (n i : Nat) :
    diagnosticsOfRaw raw (n + i) = (diagnosticsOfRaw raw i).map (Diagnostic.shift n) :=
  Segment.allDiagnostics_shift n i (Segment.ofRaw raw)

end ShellLine
