import ShellLine.Proofs.Surface.Meaning
import ShellLine.Proofs.Word.Derivation
import ShellLine.Word.Reading

/-! # Rendered words are split as they were written

The text of a surface word is read by the rules for raw words, one rule for each
atom and each segment, so the splitter finds the segments of the word again. It
gives the parts that the word means and has nothing to report. -/

namespace ShellLine.Surface

/-! ### Atoms -/

namespace Atom

/-- The item that the splitter reads for an atom. -/
def item : Atom → Item
  | char c => .char c
  | pair c => .pair c
  | plain x => .reference x.render .plain
  | braced x => .reference x .braced
  | dollar => .dollar

@[simp] theorem source_item (a : Atom) : a.item.source = a.render := by
  cases a <;> rfl

theorem part_item (quoted : Bool) (i : Nat) (a : Atom) : a.item.part quoted i = a.part quoted i := by
  cases a with
  | pair c => cases quoted <;> simp [item, part, Item.part, Item.unescape, escaped] <;> rfl
  | _ => rfl

theorem diagnostics_item (i : Nat) (a : Atom) : a.item.diagnostics i = [] := by
  cases a <;> rfl

/-- Only the next character matters. -/
theorem Fits.congr {quoted : Bool} {a : Atom} {after other : Text} (h : a.Fits quoted after)
    (head : after.head? = other.head?) : a.Fits quoted other := by
  cases a with
  | plain x =>
    intro c hc
    exact h c (head ▸ hc)
  | dollar =>
    intro c hc
    exact h c (head ▸ hc)
  | _ => exact h

/-- An atom is read by the rule of its form. -/
theorem Fits.reads {quoted : Bool} {a : Atom} {after : Text} (h : a.Fits quoted after) :
    ∃ c s, a.render ++ after = c :: s ∧ Item.Reads c s a.item after ∧ c ≠ '"' ∧
      (quoted = false → c ≠ '\'') := by
  cases a with
  | char c =>
    have hc : c ∉ charStops quoted := h
    have hbackslash : '\\' ∈ charStops quoted := by cases quoted <;> decide
    have hdollar : '$' ∈ charStops quoted := by cases quoted <;> decide
    have hdouble : '"' ∈ charStops quoted := by cases quoted <;> decide
    have hsingle : '\'' ∈ charStops false := by decide
    refine ⟨c, after, rfl, .char ?_ ?_ after, ?_, ?_⟩
    · rintro rfl
      exact hc hbackslash
    · rintro rfl
      exact hc hdollar
    · rintro rfl
      exact hc hdouble
    · rintro rfl rfl
      exact hc hsingle
  | pair c => exact ⟨'\\', c :: after, rfl, .pair c after, by decide, fun _ => by decide⟩
  | plain x =>
    refine ⟨'$', x.first :: (x.others ++ after), rfl, ?_, by decide, fun _ => by decide⟩
    exact .plain x.start x.inside h
  | braced x =>
    have hclose : '}' ∉ x := by
      intro hx
      have hstop := h _ hx
      revert hstop
      cases quoted <;> decide
    refine ⟨'$', '{' :: (x ++ '}' :: after), ?_, .braced hclose after, by decide, fun _ => by decide⟩
    simp [render]
  | dollar => exact ⟨'$', after, rfl, .dollar h, by decide, fun _ => by decide⟩

theorem doubleReads_renderAll {items : List Atom} (h : AllFit true ['"'] items) (rest : Text) :
    DoubleReads (renderAll items ++ '"' :: rest) (items.map item) true rest := by
  induction items with
  | nil => exact .close rest
  | cons a items ih =>
    obtain ⟨head, tail⟩ := h
    have hhead : (renderAll items ++ ['"']).head? = (renderAll items ++ '"' :: rest).head? := by
      simp [List.head?_append]
    obtain ⟨c, s, hcs, hreads, hquote, _⟩ := (head.congr hhead).reads
    have htext : renderAll (a :: items) ++ '"' :: rest = c :: s := by
      rw [← hcs]
      simp [renderAll]
    rw [htext]
    exact .item hquote hreads (ih tail)

theorem parts_items (i : Nat) (items : List Atom) : Item.parts i (items.map item) = parts i items := by
  induction items generalizing i with
  | nil => rfl
  | cons a items ih =>
    rw [List.map_cons, Item.parts, parts, part_item, Item.byteSize, source_item, ih]

theorem diagnostics_items (i : Nat) (items : List Atom) :
    Item.allDiagnostics i (items.map item) = [] := by
  induction items generalizing i with
  | nil => rfl
  | cons a items ih => rw [List.map_cons, Item.allDiagnostics, diagnostics_item, ih, List.nil_append]

end Atom

/-! ### Segments -/

namespace Segment

/-- The segment that the splitter reads for a segment. -/
def raw : Segment → ShellLine.Segment
  | atom a => .bare a.item
  | single content => .single content true
  | double items => .double (items.map Atom.item) true

@[simp] theorem source_raw (g : Segment) : g.raw.source = g.render := by
  cases g with
  | atom a => exact a.source_item
  | single content => rfl
  | double items => simp [raw, render, ShellLine.Segment.source, Item.sources, Atom.renderAll,
      List.flatMap_map]

theorem parts_raw (i : Nat) (g : Segment) : g.raw.parts i = g.parts i := by
  cases g with
  | atom a => exact congrArg (fun p => [p]) (a.part_item false i)
  | single content => rfl
  | double items => exact Atom.parts_items (i + 1) items

theorem diagnostics_raw (i : Nat) (g : Segment) : g.raw.diagnostics i = [] := by
  cases g with
  | atom a => exact a.diagnostics_item i
  | single content => rfl
  | double items => exact Atom.diagnostics_items (i + 1) items

/-- A segment is read by the rule of its form. -/
theorem Fits.reads {g : Segment} {after : Text} (h : g.Fits after) :
    ∃ c s, g.render ++ after = c :: s ∧ ShellLine.Segment.Reads c s g.raw after := by
  cases g with
  | atom a =>
    obtain ⟨c, s, hcs, hreads, hdouble, hsingle⟩ := Atom.Fits.reads h
    exact ⟨c, s, hcs, .bare (hsingle rfl) hdouble hreads⟩
  | single content =>
    refine ⟨'\'', content ++ '\'' :: after, ?_, .single h after⟩
    simp [render]
  | double items =>
    refine ⟨'"', Atom.renderAll items ++ '"' :: after, ?_, ?_⟩
    · simp [render]
    · exact .double (Atom.doubleReads_renderAll h after)

theorem rawReads_renderAll {gs : List Segment} (h : AllFit gs) :
    RawReads (renderAll gs) (gs.map raw) := by
  induction gs with
  | nil => exact .nil
  | cons g gs ih =>
    obtain ⟨head, tail⟩ := h
    obtain ⟨c, s, hcs, hreads⟩ := head.reads
    have htext : renderAll (g :: gs) = c :: s := hcs
    rw [htext]
    exact .cons hreads (ih tail)

theorem allParts_raw (i : Nat) (gs : List Segment) :
    ShellLine.Segment.allParts i (gs.map raw) = allParts i gs := by
  induction gs generalizing i with
  | nil => rfl
  | cons g gs ih =>
    rw [List.map_cons, ShellLine.Segment.allParts, allParts, parts_raw, ShellLine.Segment.byteSize,
      source_raw, ih]

theorem allDiagnostics_raw (i : Nat) (gs : List Segment) :
    ShellLine.Segment.allDiagnostics i (gs.map raw) = [] := by
  induction gs generalizing i with
  | nil => rfl
  | cons g gs ih =>
    rw [List.map_cons, ShellLine.Segment.allDiagnostics, diagnostics_raw, ih, List.nil_append]

end Segment

/-! ### Words -/

namespace Word

theorem ofRaw_render (w : Word) :
    ShellLine.Segment.ofRaw w.render = w.segments.map Segment.raw :=
  (Segment.rawReads_renderAll w.fit).eq_ofRaw

theorem partsOfRaw_render (w : Word) (i : Nat) : partsOfRaw w.render i = (w.meaning i).parts := by
  rw [partsOfRaw, ofRaw_render, Segment.allParts_raw, Part.merge_eq_joined]
  rfl

theorem diagnosticsOfRaw_render (w : Word) (i : Nat) : diagnosticsOfRaw w.render i = [] := by
  rw [diagnosticsOfRaw, ofRaw_render, Segment.allDiagnostics_raw]

end Word

end ShellLine.Surface
